import Opr8.Dom.Marshal
import Opr8.Dom.Navigate

/-!
# Opr8 — the node kinds the insertions admit

The DOM's documentation keeps attribute nodes on their owner's attribute list and never in
a child list, and lets only Documents and Elements own children. The one check every child
insertion makes is `allowInsertChild`, on the kinds of the parent and the child: it turns
away a Document child, a null node, and a Declaration or DocumentType outside a Document,
and admits every other kind, attributes and document fragments included. Nor does any
insertion look at where the child already is.

Main results:

* `appendChild_attribute_child` — under a Document or an Element of any well-formed store,
  a node made by `CreateAttribute` or `CreateDocumentFragment` is appended to the child
  list; once it is there, the encoder's walk reaches its unexpected-node-type error at the
  attribute.
* `appendChild_attribute_then_text` — appending an attribute that is still on its owner's
  list, and then a text node, under any Document or Element, links the text node into the
  owner's attribute list.
-/

namespace Opr8.Dom

open Xml Store

variable {s : Store} {C A : Nat → List Nat} {n c : Nat}

/-- Allocation at the frontier keeps the kinds of the nodes below it. -/
theorem nodeType_push_of_lt {q : Nat} (hq : q < s.next) (v : Value) :
    (s.push v).nodeType q = s.nodeType q := by
  simp [Store.nodeType, Function.update_noteq (ne_of_lt hq)]

/-! ## Attributes and fragments as children -/

/-- **The kind check admits attributes and fragments as children.** Under a Document or
an Element `n` of a well-formed store, `AppendChild` of a node made by `CreateAttribute`
passes `allowInsertChild` and links the attribute at the end of `n`'s child list, where
`startToken`, the switch of `encodeNodeValueStart`, answers it with its
unexpected-node-type error. A node made by `CreateDocumentFragment` is linked as a child
the same way. -/
theorem appendChild_attribute_child (hs : Shape s C A) (hb : Bounded s C A) (hn : n < s.next)
    (hp : s.nodeType n = .document ∨ s.nodeType n = .element) (a : Attr) (host : Nat)
    (m : Marshaler) (fuel : Nat) :
    (∃ s', AppendChild n (CreateAttribute a s).1 (CreateAttribute a s).2 = some (none, s') ∧
      Shape s' (Function.update C n (C n ++ [s.next])) A ∧
      startToken m s' fuel s.next = some (.error (unexpectedNodeType .attribute))) ∧
    (∃ s', AppendChild n (CreateDocumentFragment host s).1 (CreateDocumentFragment host s).2 =
        some (none, s') ∧
      Shape s' (Function.update C n (C n ++ [s.next])) A ∧
      s'.nodeType s.next = .documentFragment) := by
  have hattr : allowInsertChild (s.nodeType n) .attribute = true := by
    rcases hp with hp | hp <;> rw [hp] <;> decide
  have hfrag : allowInsertChild (s.nodeType n) .documentFragment = true := by
    rcases hp with hp | hp <;> rw [hp] <;> decide
  constructor
  · obtain ⟨s', ha, hsp⟩ := appendChild_detached (hs.push hb (.attribute a))
      (hb.detached_push _) n
      (by simpa [Store.nodeType, Function.update_noteq (ne_of_lt hn), Value.nodeType] using hattr)
    refine ⟨s', ha, hsp.shape, ?_⟩
    simp [startToken, hsp.value, Store.nodeType, Value.nodeType]
  · obtain ⟨s', ha, hsp⟩ := appendChild_detached
      ((hs.push hb .documentFragment).setParent (hb.detached_push .documentFragment).kids
        (some host))
      ((hb.detached_push _).setParent _ _) n (by
        simpa [Store.nodeType, Function.update_noteq (ne_of_lt hn), Value.nodeType] using hfrag)
    exact ⟨s', ha, hsp.shape, by simp [Store.nodeType, hsp.value, Value.nodeType]⟩

theorem appendChild_attribute_child_loneElement :
    Shape loneElement (fun _ => []) (fun _ => []) ∧
    Bounded loneElement (fun _ => []) (fun _ => []) ∧ 0 < loneElement.next ∧
    (loneElement.nodeType 0 = .document ∨ loneElement.nodeType 0 = .element) ∧
    ((∃ s', AppendChild 0 (CreateAttribute ⟨⟨"", "x"⟩, "1"⟩ loneElement).1
          (CreateAttribute ⟨⟨"", "x"⟩, "1"⟩ loneElement).2 = some (none, s') ∧
        Shape s' (Function.update (fun _ => []) 0 ([] ++ [loneElement.next])) (fun _ => []) ∧
        startToken (NewMarshaler 0 []) s' 0 loneElement.next =
          some (.error (unexpectedNodeType .attribute))) ∧
      (∃ s', AppendChild 0 (CreateDocumentFragment 0 loneElement).1
          (CreateDocumentFragment 0 loneElement).2 = some (none, s') ∧
        Shape s' (Function.update (fun _ => []) 0 ([] ++ [loneElement.next])) (fun _ => []) ∧
        s'.nodeType loneElement.next = .documentFragment)) :=
  have hl : Linkless loneElement := Linkless.empty.push _
  ⟨hl.shape, .nil _, by decide, .inr rfl,
    appendChild_attribute_child hl.shape (.nil _) (show 0 < loneElement.next by decide)
      (.inr (show loneElement.nodeType 0 = .element from rfl)) _ 0 _ 0⟩

/-- A lone element with an attribute appended as a child: the walk from the element stops
at the attribute with the unexpected-node-type error. -/
example : ((AppendChild 0 1 (loneElement.push (.attribute ⟨⟨"", "x"⟩, "1"⟩))).bind fun r =>
    treeOrder 10 (NewMarshaler 0 []) recorder r.2 []) =
      some (.error (unexpectedNodeType .attribute)) := rfl

/-! ## An attribute moved into a child list -/

/-- **A text node reaches an attribute list.** Let the attribute node `a` be the last of
`e`'s attributes, and `x` a Document or an Element. `AppendChild` admits `a` under `x` and
links it as `x`'s last child without unlinking it from `e`. The text node appended to `x`
next is linked after `a` through `a.nextSib`, the link `e`'s attribute list is read
through too: walking `e`'s attributes gives `a` and then the text node. -/
theorem appendChild_attribute_then_text (hs : Shape s C A) (hb : Bounded s C A) {e x a : Nat}
    {l : List Nat} (hA : A e = l ++ [a]) (ha : s.nodeType a = .attribute) (hx : x < s.next)
    (hp : s.nodeType x = .document ∨ s.nodeType x = .element) (cd : String) :
    ∃ s₁ s₂, AppendChild x a s = some (none, s₁) ∧
      AppendChild x (newText cd s₁).1 (newText cd s₁).2 = some (none, s₂) ∧
      s₂.walk s₂.next (s₂.firstAttr e) = some (l ++ [a, (newText cd s₁).1]) ∧
      s₂.nodeType (newText cd s₁).1 = .text := by
  have hsibA : SibList s (s.firstAttr e) (l ++ [a]) := hA ▸ hs.attrs e
  have hlt : ∀ q ∈ l ++ [a], q < s.next := fun q hq => hb.attrs e q (hA ▸ hq)
  have he : e < s.next := Nat.lt_of_not_le fun h => by simpa [hA] using (hb.fresh e h).2
  have hallow : ∀ k, k = .attribute ∨ k = .text → allowInsertChild (s.nodeType x) k = true := by
    rintro k (rfl | rfl) <;> rcases hp with hp | hp <;> rw [hp] <;> decide
  -- `a` goes to the end of `x`'s list and keeps its forward link, nil as `e`'s tail
  obtain ⟨s₁, h₁, hr₁⟩ := appendSibling_relinked
    (show SibList (s.setParent a (some x)) ((s.setParent a (some x)).head .children x) (C x) by
      simpa using hs.kids x)
    (fun h => hs.kids_attrs x e a h (by simp [hA])) (by simpa using hsibA.next_eq)
  have hA₁ : AppendChild x a s = some (none, s₁) := by
    simp [AppendChild, appendNode, allowInsertChildErr_eq_none.mpr (ha ▸ hallow _ (.inl rfl)), h₁]
  have hnext₁ : s₁.next = s.next := hr₁.next
  have hlt₁ : ∀ q ∈ C x ++ [a], q < s₁.next := fun q hq => hnext₁ ▸ by
    rcases List.mem_append.mp hq with hq | hq
    · exact hb.kids x q hq
    · exact hlt q (by simp_all)
  -- the text node goes after `a`
  have hsib₁ :
      SibList (s₁.push (.text cd)) ((s₁.push (.text cd)).head .children x) (C x ++ [a]) := by
    simpa [Function.update_noteq (ne_of_lt (hnext₁ ▸ hx))] using hr₁.sib.push hlt₁ (.text cd)
  obtain ⟨s₂, h₂, hr₂⟩ := appendSibling_relinked
    (show SibList ((s₁.push (.text cd)).setParent s₁.next (some x))
      (((s₁.push (.text cd)).setParent s₁.next (some x)).head .children x) (C x ++ [a]) by
      simpa using hsib₁)
    (fun h => lt_irrefl _ (hlt₁ _ h)) (by simp)
  have hval₁ : ∀ q, s₁.value q = s.value q := fun q => by simp [hr₁.value]
  have hA₂ : AppendChild x (newText cd s₁).1 (newText cd s₁).2 = some (none, s₂) := by
    have hk : allowInsertChild ((s₁.push (.text cd)).nodeType x)
        ((s₁.push (.text cd)).nodeType s₁.next) = true := by
      rw [nodeType_push_of_lt (hnext₁ ▸ hx)]
      simpa [Store.nodeType, hval₁, Value.nodeType] using hallow _ (.inr rfl)
    simp [AppendChild, appendNode, newText, allowInsertChildErr_eq_none.mpr hk, h₂]
  -- `e`'s attribute list, read through the new links
  have hsib₂ : SibList s₂ (s₂.head .children x) (C x ++ a :: [s₁.next]) := by simpa using hr₂.sib
  have hkept : ∀ q ∈ l, s₂.nextSib q = s.nextSib q := fun q hq => by
    have hqa : q ∉ C x ++ [a] := fun h => by
      rcases List.mem_append.mp h with h | h
      · exact hs.kids_attrs x e q h (by simp [hA, hq])
      · exact (List.nodup_append.mp hsibA.nodup).2.2 hq h
    have hqx : q ∉ C x := fun h => hqa (List.mem_append_left _ h)
    have hq₁ : q ≠ s₁.next := ne_of_lt (hnext₁ ▸ hlt q (List.mem_append_left _ hq))
    rw [hr₂.nextSib q hqa hq₁]
    simpa [Function.update_noteq hq₁] using hr₁.nextSib q hqx (fun h => hqa (by simp [h]))
  obtain ⟨m, hsegl, hsega⟩ := seg_append.mp hsibA.next
  obtain ⟨rfl, -⟩ := seg_cons.mp hsega
  have hfirst : s₂.firstAttr e = s.firstAttr e := by
    have h₂e := hr₂.head .attributes e (.inl (by decide))
    have h₁e := hr₁.head .attributes e (.inl (by decide))
    simp only [head_attributes, setParent_firstAttr, push_firstAttr] at h₂e h₁e
    rw [h₂e, Function.update_noteq (ne_of_lt (hnext₁ ▸ he)), h₁e]
  have hseg : Seg s₂.nextSib (s₂.firstAttr e) (l ++ [a, s₁.next]) none := by
    refine seg_append.mpr ⟨some a, hfirst ▸ hsegl.congr hkept, ?_⟩
    have htail : SibList s₂ (s₂.head .children x) ((C x ++ [a]) ++ s₁.next :: []) := by
      simpa using hsib₂
    simp [hsib₂.next_eq, htail.next_eq]
  have hlen : (l ++ [a, s₁.next]).length ≤ s₂.next := by
    have := length_le_of_nodup hsibA.nodup hlt
    simp only [List.length_append, List.length_singleton] at this
    simp [hr₂.next, hnext₁]
    omega
  refine ⟨s₁, s₂, hA₁, hA₂, walk_of_seg hseg hlen, ?_⟩
  simp [newText, Store.nodeType, hr₂.value, Value.nodeType]

/-- A document at `0`, and at `1` an element whose one attribute is at `2`. -/
def docAndAttributed : Store :=
  (appendAttrs 1 [⟨⟨"", "x"⟩, "1"⟩] docAndElement).getD docAndElement

theorem docAndAttributed_shape :
    Shape docAndAttributed (fun _ => []) (Function.update (fun _ => []) 1 [2]) ∧
    Bounded docAndAttributed (fun _ => []) (Function.update (fun _ => []) 1 [2]) := by
  have hl : Linkless docAndElement := (Linkless.empty.push _).push _
  obtain ⟨s', h, hs, hb, -⟩ := appendAttrs_spec [⟨⟨"", "x"⟩, "1"⟩] hl.shape (.nil _)
    (show 1 < docAndElement.next by decide)
  obtain rfl : s' = docAndAttributed := by simp [docAndAttributed, h]
  exact ⟨hs, hb⟩

theorem appendChild_attribute_then_text_docAndAttributed :
    Shape docAndAttributed (fun _ => []) (Function.update (fun _ => []) 1 [2]) ∧
    Bounded docAndAttributed (fun _ => []) (Function.update (fun _ => []) 1 [2]) ∧
    Function.update (fun _ => []) 1 [2] 1 = [] ++ [2] ∧ docAndAttributed.nodeType 2 = .attribute ∧
    0 < docAndAttributed.next ∧
    (docAndAttributed.nodeType 0 = .document ∨ docAndAttributed.nodeType 0 = .element) ∧
    ∃ s₁ s₂, AppendChild 0 2 docAndAttributed = some (none, s₁) ∧
      AppendChild 0 (newText "t" s₁).1 (newText "t" s₁).2 = some (none, s₂) ∧
      s₂.walk s₂.next (s₂.firstAttr 1) = some ([] ++ [2, (newText "t" s₁).1]) ∧
      s₂.nodeType (newText "t" s₁).1 = .text :=
  ⟨docAndAttributed_shape.1, docAndAttributed_shape.2, rfl, rfl, by decide, .inl rfl,
    appendChild_attribute_then_text docAndAttributed_shape.1 docAndAttributed_shape.2
      (show Function.update (fun _ => []) 1 [2] 1 = [] ++ [2] from rfl)
      (show docAndAttributed.nodeType 2 = .attribute from rfl)
      (show 0 < docAndAttributed.next by decide)
      (.inl (show docAndAttributed.nodeType 0 = .document from rfl)) "t"⟩

end Opr8.Dom
