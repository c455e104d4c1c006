import Opr8.Dom.Builder

/-!
# Opr8 — what the Builder builds, without pointers

`Build` is the Builder with the store forgotten: the trees finished under the root, and
the elements started and not yet ended, innermost first, each with its start tag and the
trees finished under it. `Build.step` is one token: a start tag opens an element, an end
tag closes the innermost one and adds it under the next, and character data, a comment or
a processing instruction adds what the options keep of it (`leafTrees`) once the kind of
the cursor accepts it (`leafAccepts`). An end tag with nothing open, a directive, and a
rejected kind are errors, `none`.

A balanced token sequence is a forest of `TokenTree`s; `TokenTree.refList` is the forest
of trees such a sequence stands for, by structural recursion.

`Built opts nt t` says what the machine can finish under a cursor of kind `nt`: an element
whose children are again `Built`, or a node an event leaves, of a kind the cursor accepts,
holding what the options keep (text that `textOf` keeps as it is, a comment only with
comments kept, and so on). Every state the machine reaches from the root holds only such
trees (`Build.run_valid`).

Main results:

* `Build.run_tokensList` — on a balanced sequence the machine adds exactly the reference
  forest under the cursor.
* `Build.run_valid` — every tree the machine finishes is `Built` for its parent's kind.
-/

namespace Opr8.Dom

open Xml

/-! ## The trees an event stands for -/

/-- The tree of an element the Builder has closed: named by its start tag, with no prefix,
its attributes in order. -/
def elementTree (se : StartElement) (kids : List DTree) : DTree :=
  .node (.element se.name "") se.attr kids

/-- What a processing instruction adds when its kind is accepted: a declaration, with the
attributes parsed from its text, for the target `xml` with keep-declaration on; a
processing instruction for another target with keep-processing-instructions on. -/
def procInstTrees (opts : Bitflag) (pi : ProcInst) : List DTree :=
  if pi.target = "xml" then
    if opts.Has parseDeclaration = true then [.node (.declaration pi) (declAttrs pi) []] else []
  else if opts.Has parsePI = true then [.node (.procinst pi) [] []] else []

/-- What character data, a comment or a processing instruction adds under the cursor. -/
def leafTrees (opts : Bitflag) : Token → List DTree
  | .charData cd => (Builder.textOf opts cd).toList.map fun d => .node (.text d) [] []
  | .comment c => if opts.Has parseComments = true then [.node (.comment c) [] []] else []
  | .procInst pi => procInstTrees opts pi
  | _ => []

/-- Whether a cursor of kind `nt` accepts the event: its handler's kind check. A comment
is not checked when comments are dropped; a directive is always an error. -/
def leafAccepts (opts : Bitflag) (nt : NodeType) : Token → Bool
  | .charData _ => allowInsertChild nt .text
  | .comment _ => opts.Has parseComments = false || allowInsertChild nt .comment
  | .procInst pi => allowInsertChild nt (Builder.procInstType pi)
  | _ => false

/-! ## The machine -/

/-- The abstract Builder: the trees finished under the root, and the open elements,
innermost first, each with its start tag and the trees finished under it. -/
structure Build where
  kids : List DTree
  opens : List (StartElement × List DTree)

namespace Build

/-- Add finished trees under the cursor. -/
def addAll (l : List DTree) : Build → Build
  | ⟨ks, []⟩ => ⟨ks ++ l, []⟩
  | ⟨ks, (se, kids) :: os⟩ => ⟨ks, (se, kids ++ l) :: os⟩

@[simp] theorem addAll_root (ks l : List DTree) : (⟨ks, []⟩ : Build).addAll l = ⟨ks ++ l, []⟩ :=
  rfl

@[simp] theorem addAll_open (ks l : List DTree) (se : StartElement) (kids : List DTree)
    (os : List (StartElement × List DTree)) :
    (⟨ks, (se, kids) :: os⟩ : Build).addAll l = ⟨ks, (se, kids ++ l) :: os⟩ := rfl

@[simp] theorem addAll_nil (a : Build) : a.addAll [] = a := by
  rcases a with ⟨ks, _ | ⟨⟨se, kids⟩, os⟩⟩ <;> simp

theorem addAll_addAll (a : Build) (l l' : List DTree) :
    (a.addAll l).addAll l' = a.addAll (l ++ l') := by
  rcases a with ⟨ks, _ | ⟨⟨se, kids⟩, os⟩⟩ <;> simp

/-- The kind of the cursor: the root's, `rk`, or an element. -/
def cursorType (rk : NodeType) : Build → NodeType
  | ⟨_, []⟩ => rk
  | ⟨_, _ :: _⟩ => .element

/-- One token. -/
def step (opts : Bitflag) (rk : NodeType) : Token → Build → Option Build
  | .startElement se, ⟨ks, os⟩ => some ⟨ks, (se, []) :: os⟩
  | .endElement _, ⟨_, []⟩ => none
  | .endElement _, ⟨ks, (se, kids) :: os⟩ => some ((⟨ks, os⟩ : Build).addAll [elementTree se kids])
  | t, a => if leafAccepts opts (a.cursorType rk) t then some (a.addAll (leafTrees opts t)) else none

/-- A token list, up to the first error. -/
def run (opts : Bitflag) (rk : NodeType) : List Token → Build → Option Build
  | [], a => some a
  | t :: ts, a => (step opts rk t a).bind (run opts rk ts)

theorem run_append (opts : Bitflag) (rk : NodeType) : ∀ (xs ys : List Token) (a : Build),
    run opts rk (xs ++ ys) a = (run opts rk xs a).bind (run opts rk ys)
  | [], _, _ => rfl
  | t :: xs, ys, a => by
    simp only [List.cons_append, run, Option.bind_assoc]
    congr 1
    funext a'
    exact run_append opts rk xs ys a'

end Build

/-! ## Balanced sequences -/

/-- A balanced sequence of StartElement, EndElement, CharData, Comment and ProcInst
events, as a forest: an element is its start tag, the events it encloses, and its end
tag. -/
inductive TokenTree where
  | element (se : StartElement) (en : Name) (inner : List TokenTree)
  | charData (cd : String)
  | comment (c : String)
  | procInst (pi : ProcInst)

mutual
/-- The events of a tree, in order. -/
def TokenTree.tokens : TokenTree → List Token
  | .element se en inner => .startElement se :: TokenTree.tokensList inner ++ [.endElement en]
  | .charData cd => [.charData cd]
  | .comment c => [.comment c]
  | .procInst pi => [.procInst pi]

/-- The events of a forest, in order. -/
def TokenTree.tokensList : List TokenTree → List Token
  | [] => []
  | t :: ts => t.tokens ++ TokenTree.tokensList ts
end

mutual
/-- The reference forest of a tree: an element becomes one element node whose children
are the reference forest of what it encloses; an event becomes what the options keep of
it. -/
def TokenTree.ref (opts : Bitflag) : TokenTree → List DTree
  | .element se _ inner => [elementTree se (TokenTree.refList opts inner)]
  | .charData cd => leafTrees opts (.charData cd)
  | .comment c => leafTrees opts (.comment c)
  | .procInst pi => leafTrees opts (.procInst pi)

/-- The reference forest of a forest. -/
def TokenTree.refList (opts : Bitflag) : List TokenTree → List DTree
  | [] => []
  | t :: ts => t.ref opts ++ TokenTree.refList opts ts
end

namespace Build

variable {opts : Bitflag} {rk : NodeType}

/-- A token that is neither a start nor an end tag adds its `leafTrees`, if accepted. -/
theorem run_leaf {t : Token} (hs : ∀ se, t ≠ .startElement se) (he : ∀ n, t ≠ .endElement n)
    {a a' : Build} (h : run opts rk [t] a = some a') : a' = a.addAll (leafTrees opts t) := by
  have hstep : step opts rk t a = some a' := by simpa [run] using h
  cases t with
  | startElement se => exact absurd rfl (hs se)
  | endElement n => exact absurd rfl (he n)
  | _ =>
    simp only [step] at hstep
    split at hstep
    · exact (Option.some.inj hstep).symm
    · cases hstep

mutual
/-- On the events of a tree, the machine adds the tree's reference forest. -/
theorem run_tokens : ∀ (t : TokenTree) {a a' : Build},
    run opts rk t.tokens a = some a' → a' = a.addAll (t.ref opts)
  | .element se en inner, ⟨ks, os⟩, a', h => by
    simp only [TokenTree.tokens, List.append_eq, run, step, Option.some_bind, run_append] at h
    obtain ⟨a₁, h₁, h₂⟩ := Option.bind_eq_some.mp h
    rw [run_tokensList inner h₁] at h₂
    simp only [addAll_open, List.nil_append, run, step, Option.bind_some] at h₂
    simp only [TokenTree.ref, ← Option.some.inj h₂]
  | .charData cd, _, _, h => run_leaf (by simp) (by simp) h
  | .comment c, _, _, h => run_leaf (by simp) (by simp) h
  | .procInst pi, _, _, h => run_leaf (by simp) (by simp) h

/-- On a balanced sequence, the machine adds the reference forest. -/
theorem run_tokensList : ∀ (f : List TokenTree) {a a' : Build},
    run opts rk (TokenTree.tokensList f) a = some a' → a' = a.addAll (TokenTree.refList opts f)
  | [], a, a', h => by simpa [TokenTree.tokensList, TokenTree.refList, run] using h.symm
  | t :: ts, a, a', h => by
    simp only [TokenTree.tokensList, List.append_eq, run_append] at h
    obtain ⟨a₁, h₁, h₂⟩ := Option.bind_eq_some.mp h
    rw [run_tokensList ts h₂, run_tokens t h₁, addAll_addAll]
    rfl
end

end Build

/-! ## What the machine can build -/

mutual
/-- A tree the Builder can finish under a cursor of kind `nt` with the options `opts`: an
element, whose children it finished under an element, or a node an event leaves, of a kind
the cursor accepts, holding what the options keep. -/
def Built (opts : Bitflag) (nt : NodeType) : DTree → Prop
  | .node (.element _ _) _ kids => allowInsertChild nt .element ∧ BuiltList opts .element kids
  | .node (.text d) attrs kids =>
    attrs = [] ∧ kids = [] ∧ allowInsertChild nt .text ∧ Builder.textOf opts d = some d
  | .node (.comment _) attrs kids =>
    attrs = [] ∧ kids = [] ∧ opts.Has parseComments = true ∧ allowInsertChild nt .comment
  | .node (.declaration pi) attrs kids =>
    attrs = declAttrs pi ∧ kids = [] ∧ pi.target = "xml" ∧ opts.Has parseDeclaration = true ∧
      allowInsertChild nt .declaration
  | .node (.procinst pi) attrs kids =>
    attrs = [] ∧ kids = [] ∧ pi.target ≠ "xml" ∧ opts.Has parsePI = true ∧
      allowInsertChild nt .processingInstruction
  | .node _ _ _ => False

/-- Trees the Builder can finish, all under a cursor of kind `nt`. -/
def BuiltList (opts : Bitflag) (nt : NodeType) : List DTree → Prop
  | [] => True
  | t :: ts => Built opts nt t ∧ BuiltList opts nt ts
end

section Built

variable {opts : Bitflag} {nt rk : NodeType}

@[simp] theorem builtList_nil : BuiltList opts nt [] := trivial

@[simp] theorem builtList_cons {t : DTree} {ts : List DTree} :
    BuiltList opts nt (t :: ts) ↔ Built opts nt t ∧ BuiltList opts nt ts := Iff.rfl

@[simp] theorem builtList_append : ∀ {l l' : List DTree},
    BuiltList opts nt (l ++ l') ↔ BuiltList opts nt l ∧ BuiltList opts nt l'
  | [], _ => by simp
  | t :: l, l' => by simp [builtList_append, and_assoc]

/-- What an accepted event adds is `Built`. -/
theorem leafTrees_built {t : Token} (ht : leafAccepts opts nt t = true) :
    BuiltList opts nt (leafTrees opts t) := by
  cases t with
  | charData cd =>
    rcases hd : Builder.textOf opts cd with _ | d
    · simp [leafTrees, hd]
    · simp only [leafAccepts] at ht
      simp [leafTrees, hd, Built, ht, Builder.textOf_textOf hd]
  | comment c =>
    cases hc : opts.Has parseComments
    · simp [leafTrees, hc]
    · simp only [leafAccepts, hc, Bool.true_eq_false, decide_False, Bool.false_or] at ht
      simp [leafTrees, hc, Built, ht]
  | procInst pi =>
    simp only [leafAccepts, Builder.procInstType] at ht
    unfold leafTrees procInstTrees
    by_cases hx : pi.target = "xml" <;> simp only [hx, if_true, if_false] at ht ⊢ <;> split <;>
      simp_all [Built]
  | _ => simp [leafAccepts] at ht

/-- Every finished tree is one the options allow under its parent's kind. -/
def Build.Valid (opts : Bitflag) (rk : NodeType) (a : Build) : Prop :=
  BuiltList opts rk a.kids ∧ ∀ o ∈ a.opens, BuiltList opts .element o.2

namespace Build

theorem Valid.addAll {a : Build} (hv : Valid opts rk a) {l : List DTree}
    (hl : BuiltList opts (a.cursorType rk) l) : Valid opts rk (a.addAll l) := by
  rcases a with ⟨ks, _ | ⟨⟨se, kids⟩, os⟩⟩
  · exact ⟨builtList_append.mpr ⟨hv.1, hl⟩, by simp⟩
  · refine ⟨hv.1, fun o ho => ?_⟩
    rcases List.mem_cons.mp ho with rfl | ho
    · exact builtList_append.mpr ⟨hv.2 _ (List.mem_cons_self _ _), hl⟩
    · exact hv.2 o (List.mem_cons_of_mem _ ho)

/-- **One step keeps the machine valid**, when the root accepts elements. -/
theorem step_valid (hrk : allowInsertChild rk .element = true) {t : Token} {a a' : Build}
    (hv : Valid opts rk a) (h : step opts rk t a = some a') : Valid opts rk a' := by
  rcases a with ⟨ks, os⟩
  cases t with
  | startElement se =>
    obtain rfl := Option.some.inj h
    exact ⟨hv.1, fun o ho => by
      rcases List.mem_cons.mp ho with rfl | ho
      · exact builtList_nil
      · exact hv.2 o ho⟩
  | endElement en =>
    rcases os with _ | ⟨⟨se, kids⟩, os⟩
    · cases h
    · obtain rfl := Option.some.inj h
      have hv' : Valid opts rk ⟨ks, os⟩ := ⟨hv.1, fun o ho => hv.2 o (List.mem_cons_of_mem _ ho)⟩
      refine hv'.addAll (builtList_cons.mpr ⟨⟨?_, hv.2 _ (List.mem_cons_self _ _)⟩, trivial⟩)
      rcases os with _ | _
      · exact hrk
      · rfl
  | _ =>
    simp only [step] at h
    split at h
    · obtain rfl := Option.some.inj h
      exact hv.addAll (leafTrees_built ‹_›)
    · cases h

theorem run_valid (hrk : allowInsertChild rk .element = true) :
    ∀ {ts : List Token} {a a' : Build}, Valid opts rk a → run opts rk ts a = some a' →
      Valid opts rk a'
  | [], _, _, hv, h => Option.some.inj h ▸ hv
  | _ :: _, _, _, hv, h => by
    obtain ⟨a₁, h₁, h₂⟩ := Option.bind_eq_some.mp h
    exact run_valid hrk (step_valid hrk hv h₁) h₂

end Build

end Built

end Opr8.Dom
