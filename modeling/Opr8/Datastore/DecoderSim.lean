import Opr8.Datastore.Decoder

/-!
# Opr8 — on valid input the decoder builds what the Builder builds

The schema-guided decoder links an element into its parent's child list when the element
starts, where the Builder links it when it ends. `DBuilds` is the counterpart of `Builds`
for the decoder: the store holds the abstract machine's state, each open element already
being the last child of the one outside it. `DSim` adds the decoder's own state: not
skipping, names passed through, the node cursor on the innermost open element, and one
restore frame per open element, each putting the cursor back on the element outside.

On input whose start tags all resolve, the decoder steps as the machine does, provided
every piece of character data is directly followed by an end tag: the `CharData` handler
runs the innermost frame, putting the cursor on the element's parent at once, and only the
end tag that follows makes that right. The Builder, keeping white space and trimming
nothing, steps as the same machine (`feed_sim`), so the two stores stand for the same
forest.

Main results:

* `dsim_feed` — fed such input without a fatal error and without recording an error, the
  decoder holds the machine's final state.
* `decoder_builds_builderForest` — on a balanced sequence of start tags, end tags and
  character data in which every piece of character data is directly followed by an end
  tag, a decoder that records no error builds, under an empty document, the same forest as
  the Builder: the reference forest of the sequence.
-/

namespace Opr8.Datastore

open Opr8.Dom Xml Store

/-! ## Open elements, already linked -/

/-- The open element `n` holds the start tag `o.1`, and the nodes `ks` stand for its
finished children `o.2`. -/
def OpenAt (K : Nat → Prop) (s : Store) (C A : Nat → List Nat) (n : Nat)
    (o : StartElement × List DTree) (ks : List Nat) : Prop :=
  s.value n = some (.element o.1.name "") ∧ (∀ a ∈ A n, K a) ∧
    (A n).map s.attrOf = o.1.attr.map some ∧ RepListIn K s C A ks o.2

/-- The open elements `ps`, innermost first, hold the frames `os`: the child list of each
is the nodes of its finished children followed by the open element inside it (`i` for the
first). -/
def Attached (K : Nat → Prop) (s : Store) (C A : Nat → List Nat) :
    Option Nat → List Nat → List (StartElement × List DTree) → Prop
  | _, [], [] => True
  | i, n :: ps, o :: os =>
    (∃ ks, C n = ks ++ i.toList ∧ OpenAt K s C A n o ks) ∧ Attached K s C A (some n) ps os
  | _, _, _ => False

section Attached

variable {K K' : Nat → Prop} {s s' : Store} {C C' A A' : Nat → List Nat}

@[simp] theorem attached_nil_left {i : Option Nat} {os : List (StartElement × List DTree)} :
    Attached K s C A i [] os ↔ os = [] := by
  cases os <;> simp [Attached]

theorem attached_cons_nil {i : Option Nat} {n : Nat} {ps : List Nat} :
    ¬ Attached K s C A i (n :: ps) [] := by
  simp [Attached]

theorem OpenAt.move (hag : AgreeOn K s s' C C' A A') (hK : ∀ q, K q → K' q) {n : Nat}
    {o : StartElement × List DTree} {ks : List Nat} (hv : s'.value n = s.value n)
    (hA : A' n = A n) (h : OpenAt K s C A n o ks) : OpenAt K' s' C' A' n o ks := by
  obtain ⟨hval, ha, hm, hl⟩ := h
  refine ⟨hv.trans hval, fun a m => hK a (ha a (by rwa [hA] at m)), ?_,
    (hl.transport hag).mono hK⟩
  rw [hA, ← hm]
  exact List.map_congr_left fun a m => by simp only [Store.attrOf, (hag a (ha a m)).1]

/-- An open element, once finished, stands for its tree. -/
theorem OpenAt.repIn {n : Nat} {o : StartElement × List DTree} (h : OpenAt K s C A n o (C n))
    (hn : K n) : RepIn K s C A n (elementTree o.1 o.2) :=
  repIn_node.mpr ⟨hn, h⟩

/-- A finished child added to an open element. -/
theorem OpenAt.push {n c : Nat} {se : StartElement} {kids : List DTree} {ks : List Nat}
    {t : DTree} (h : OpenAt K s C A n (se, kids) ks) (ht : RepIn K s C A c t) :
    OpenAt K s C A n (se, kids ++ [t]) (ks ++ [c]) :=
  ⟨h.1, h.2.1, h.2.2.1, h.2.2.2.concat ht⟩

theorem Attached.move (hag : AgreeOn K s s' C C' A A') (hK : ∀ q, K q → K' q) :
    ∀ {i : Option Nat} {ps : List Nat} {os : List (StartElement × List DTree)},
    (∀ n ∈ ps, s'.value n = s.value n ∧ C' n = C n ∧ A' n = A n) →
    Attached K s C A i ps os → Attached K' s' C' A' i ps os
  | _, [], [], _, _ => trivial
  | _, n :: _, _ :: _, hn, ⟨⟨ks, hC, ho⟩, hos⟩ =>
    have ⟨hv, hCn, hA⟩ := hn n (List.mem_cons_self _ _)
    ⟨⟨ks, hCn.trans hC, ho.move hag hK hv hA⟩,
      Attached.move hag hK (fun m hm => hn m (List.mem_cons_of_mem _ hm)) hos⟩
  | _, [], _ :: _, _, h => h.elim
  | _, _ :: _, [], _, h => h.elim

end Attached

/-! ## The invariant -/

/-- The store `s` with lists `C`, `A` holds the machine state `a`, the open elements being
the nodes `ps`, in a decoder run begun at the root `r` of the store `s₀`: the root's child
list is its old one, then nodes standing for `a.kids`, then the outermost open element. -/
structure DBuilds (s₀ : Store) (C₀ A₀ : Nat → List Nat) (r : Nat) (s : Store)
    (C A : Nat → List Nat) (a : Build) (ps : List Nat) : Prop where
  shape : Shape s C A
  bounded : Bounded s C A
  root_lt : r < s₀.next
  root_kind : s₀.nodeType r = .document ∨ s₀.nodeType r = .element
  grows : s₀.next ≤ s.next
  old : ∀ q < s₀.next, (q ≠ r → C q = C₀ q) ∧ A q = A₀ q ∧ s.value q = s₀.value q
  root : ∃ ks, C r = C₀ r ++ ks ++ ps.getLast?.toList ∧
    RepListIn (Done s r ps) s C A ks a.kids
  opens : Attached (Done s r ps) s C A none ps a.opens
  fresh : ∀ n ∈ ps, s₀.next ≤ n ∧ n < s.next
  nodup : ps.Nodup

namespace DBuilds

variable {s₀ s : Store} {C₀ A₀ C A : Nat → List Nat} {r : Nat} {a : Build} {ps : List Nat}

/-- A run starts with nothing built and nothing open. -/
theorem init (hs : Shape s C A) (hb : Bounded s C A) (hr : r < s.next)
    (hk : s.nodeType r = .document ∨ s.nodeType r = .element) :
    DBuilds s C A r s C A ⟨[], []⟩ [] :=
  ⟨hs, hb, hr, hk, le_rfl, fun _ _ => ⟨fun _ => rfl, rfl, rfl⟩,
    ⟨[], by simp, repListIn_nil_nil⟩, trivial, by simp, List.nodup_nil⟩

/-- The cursor's kind is the machine's. -/
theorem cursorType_eq (h : DBuilds s₀ C₀ A₀ r s C A a ps) :
    s.nodeType (ps.headD r) = a.cursorType (s₀.nodeType r) := by
  rcases a with ⟨ks, os⟩
  have ho := h.opens
  cases ps with
  | nil =>
    obtain rfl : os = [] := attached_nil_left.mp ho
    simp [Build.cursorType, Store.nodeType, (h.old r h.root_lt).2.2]
  | cons n ps =>
    cases os with
    | nil => exact absurd ho attached_cons_nil
    | cons o os =>
      obtain ⟨ks', -, hv, -⟩ := ho.1
      simp [Build.cursorType, nodeType_of_value hv, Value.nodeType]

/-- The cursor is the root or an open element. -/
theorem cursor_lt (h : DBuilds s₀ C₀ A₀ r s C A a ps) :
    (ps.headD r = r ∨ ps.headD r ∈ ps) ∧ ps.headD r < s.next := by
  cases ps with
  | nil => exact ⟨.inl rfl, lt_of_lt_of_le h.root_lt h.grows⟩
  | cons n ps => exact ⟨.inr (List.mem_cons_self _ _), (h.fresh n (List.mem_cons_self _ _)).2⟩

/-- **Creating a node** keeps the invariant, and the node stands for its own tree. -/
theorem create (h : DBuilds s₀ C₀ A₀ r s C A a ps) {s₁ : Store} {v : Value}
    {attrs : List Attr} (hc : Created s s₁ C A v attrs) :
    DBuilds s₀ C₀ A₀ r s₁ C
      (Function.update A s.next (List.range' (s.next + 1) attrs.length)) a ps ∧
    RepIn (Done s₁ r ps) s₁ C (Function.update A s.next (List.range' (s.next + 1) attrs.length))
      s.next (.node v attrs []) := by
  have hnext := hc.next
  have hgrows := h.grows
  have hr := h.root_lt
  have hK : ∀ q, Done s r ps q → Done s₁ r ps q :=
    fun q hq => ⟨by have := hq.1; omega, hq.2⟩
  have hag : AgreeOn (Done s r ps) s s₁ C C A _ := fun q hq => hc.agreeOn q hq.1
  have hold : ∀ n < s.next, s₁.value n = s.value n ∧ C n = C n ∧
      Function.update A s.next (List.range' (s.next + 1) attrs.length) n = A n :=
    fun n hn => ⟨(hc.kept n hn).2.2, rfl, Function.update_noteq (ne_of_lt hn) _ _⟩
  obtain ⟨ks, hks, hrep⟩ := h.root
  refine ⟨⟨hc.shape, hc.bounded, hr, h.root_kind, by omega, fun q hq => ?_,
    ⟨ks, hks, (hrep.transport hag).mono hK⟩,
    h.opens.move hag hK fun n hn => hold n (h.fresh n hn).2, fun n hn => ?_, h.nodup⟩,
    hc.repIn h.bounded fun q hq hq' => ⟨hq', by omega, fun hm => ?_⟩⟩
  · obtain ⟨hC, hA, hv⟩ := h.old q hq
    obtain ⟨hv', -, hA'⟩ := hold q (by omega)
    exact ⟨hC, hA'.trans hA, hv'.trans hv⟩
  · obtain ⟨hlo, hlt⟩ := h.fresh n hn
    exact ⟨hlo, by omega⟩
  · have := (h.fresh q hm).2
    omega

/-- Nodes of the old store other than the root keep their child lists when the cursor's
grows. -/
theorem cursor_ne_old (h : DBuilds s₀ C₀ A₀ r s C A a ps) {q : Nat} (hq : q < s₀.next)
    (hqr : q ≠ r) : q ≠ ps.headD r := fun e =>
  h.cursor_lt.1.elim (fun e' => hqr (e.trans e')) (fun m => by have := (h.fresh _ m).1; omega)

/-- **Linking a finished node** under the cursor keeps the invariant, with the node's tree
added under the cursor. -/
theorem attach (h : DBuilds s₀ C₀ A₀ r s C A a ps) {c : Nat} {t : DTree}
    (hc : Done s r ps c) (hd : Detached s C A c) (ht : RepIn (Done s r ps) s C A c t)
    (hk : allowInsertChild (s.nodeType (ps.headD r)) (s.nodeType c) = true) :
    ∃ s', AppendChild (ps.headD r) c s = some (none, s') ∧
      DBuilds s₀ C₀ A₀ r s' (Function.update C (ps.headD r) (C (ps.headD r) ++ [c])) A
        (a.addAll [t]) ps := by
  obtain ⟨s', hApp, hsp⟩ := appendChild_detached h.shape hd _ hk
  obtain ⟨hp, hplt⟩ := h.cursor_lt
  have hr := h.root_lt
  have hcps : c ∉ ps := hc.2.2
  have hdone : ∀ q, Done s r ps q → q ≠ ps.headD r := fun q hq e =>
    hp.elim (fun e' => hq.2.1 (e.trans e')) (fun m => hq.2.2 (e ▸ m))
  have hag : AgreeOn (Done s r ps) s s' C
      (Function.update C (ps.headD r) (C (ps.headD r) ++ [c])) A A :=
    fun q hq => ⟨congrFun hsp.value q, Function.update_noteq (hdone q hq) _ _, rfl⟩
  have hK : ∀ q, Done s r ps q → Done s' r ps q := fun q hq => by
    simpa only [Done, hsp.next] using hq
  have ht' := (ht.transport hag).mono hK
  obtain ⟨ks, hks, hrep⟩ := h.root
  have hrep' := (hrep.transport hag).mono hK
  refine ⟨s', hApp, hsp.shape, ?_, hr, h.root_kind, hsp.next ▸ h.grows, fun q hq => ?_, ?_, ?_,
    fun n hn => ?_, h.nodup⟩
  · refine (h.bounded.update_kids hplt fun q hq => ?_).of_le (by rw [hsp.next])
    rcases List.mem_append.mp hq with hq | hq
    · exact h.bounded.kids _ q hq
    · rw [List.mem_singleton.mp hq]
      exact hc.1
  · obtain ⟨hC, hA, hv⟩ := h.old q hq
    exact ⟨fun hqr => (Function.update_noteq (h.cursor_ne_old hq hqr) _ _).trans (hC hqr), hA,
      (congrFun hsp.value q).trans hv⟩
  · -- the root's list grows only when nothing is open
    cases ps with
    | nil =>
      obtain ⟨ks0, os⟩ := a
      obtain rfl : os = [] := attached_nil_left.mp h.opens
      exact ⟨ks ++ [c], by simp [hks], hrep'.concat ht'⟩
    | cons n ps =>
      obtain ⟨ks0, _ | ⟨⟨se, kids⟩, os⟩⟩ := a
      · exact absurd h.opens attached_cons_nil
      · have hrn : r ≠ n := by have := (h.fresh n (List.mem_cons_self _ _)).1; omega
        exact ⟨ks, by rw [List.headD_cons, Function.update_noteq hrn, hks], hrep'⟩
  · -- otherwise the innermost open element's list grows
    cases ps with
    | nil =>
      obtain ⟨ks0, os⟩ := a
      obtain rfl : os = [] := attached_nil_left.mp h.opens
      exact trivial
    | cons n ps =>
      obtain ⟨ks0, _ | ⟨⟨se, kids⟩, os⟩⟩ := a
      · exact absurd h.opens attached_cons_nil
      · obtain ⟨⟨kn, hC, ho⟩, hos⟩ := h.opens
        have hnps : n ∉ ps := (List.nodup_cons.mp h.nodup).1
        refine ⟨⟨kn ++ [c], by simp [hC], ?_⟩,
          hos.move hag hK fun m hm => ⟨congrFun hsp.value m,
            Function.update_noteq (fun e : m = n => hnps (e ▸ hm)) _ _, rfl⟩⟩
        exact (ho.move hag hK (congrFun hsp.value n) rfl).push ht'
  · obtain ⟨hlo', hlt'⟩ := h.fresh n hn
    exact ⟨hlo', by rw [hsp.next]; exact hlt'⟩

/-- The machine's cursor accepts an element. -/
theorem element_allowed (h : DBuilds s₀ C₀ A₀ r s C A a ps) :
    allowInsertChild (a.cursorType (s₀.nodeType r)) .element = true := by
  rcases a with ⟨_, _ | _⟩ <;> rcases h.root_kind with hk | hk <;>
    simp [Build.cursorType, hk, allowInsertChild]

/-- **A start tag** creates the element and links it under the cursor at once, where it
stays open. -/
theorem start (h : DBuilds s₀ C₀ A₀ r s C A a ps) {s₁ : Store} {se : StartElement}
    (hc : Created s s₁ C A (.element se.name "") se.attr) :
    ∃ s₂, AppendChild (ps.headD r) s.next s₁ = some (none, s₂) ∧
      DBuilds s₀ C₀ A₀ r s₂ (Function.update C (ps.headD r) (C (ps.headD r) ++ [s.next]))
        (Function.update A s.next (List.range' (s.next + 1) se.attr.length))
        ⟨a.kids, (se, []) :: a.opens⟩ (s.next :: ps) := by
  obtain ⟨hp, hplt⟩ := h.cursor_lt
  have hk : allowInsertChild (s₁.nodeType (ps.headD r)) (s₁.nodeType s.next) = true := by
    have hcur : s₁.nodeType (ps.headD r) = s.nodeType (ps.headD r) := by
      simp only [Store.nodeType, (hc.kept _ hplt).2.2]
    rw [nodeType_of_value hc.value, hcur, h.cursorType_eq]
    exact h.element_allowed
  obtain ⟨s₂, hApp, hsp⟩ := appendChild_detached hc.shape hc.detached _ hk
  have hnext₁ := hc.next
  have hnext : s₂.next = s.next + 1 + se.attr.length := hsp.next.trans hnext₁
  have hgrows := h.grows
  have hr := h.root_lt
  have hfresh : ∀ n ∈ ps, n < s.next := fun n hn => (h.fresh n hn).2
  have hval : ∀ q < s.next, s₂.value q = s.value q :=
    fun q hq => (congrFun hsp.value q).trans (hc.kept q hq).2.2
  have hA : ∀ q < s.next,
      Function.update A s.next (List.range' (s.next + 1) se.attr.length) q = A q :=
    fun q hq => Function.update_noteq (ne_of_lt hq) _ _
  have hK : ∀ q, Done s r ps q → Done s₂ r (s.next :: ps) q :=
    fun q hq => ⟨by have := hq.1; omega, hq.2.1,
      List.not_mem_cons_of_ne_of_not_mem (ne_of_lt hq.1) hq.2.2⟩
  have hag : AgreeOn (Done s r ps) s s₂ C
      (Function.update C (ps.headD r) (C (ps.headD r) ++ [s.next])) A
      (Function.update A s.next (List.range' (s.next + 1) se.attr.length)) :=
    fun q hq => ⟨hval q hq.1, Function.update_noteq (fun e =>
      hp.elim (fun e' => hq.2.1 (e.trans e')) (fun m => hq.2.2 (e ▸ m))) _ _, hA q hq.1⟩
  obtain ⟨ks, hks, hrep⟩ := h.root
  refine ⟨s₂, hApp, hsp.shape, ?_, hr, h.root_kind, by omega, fun q hq => ?_,
    ⟨ks, ?_, (hrep.transport hag).mono hK⟩,
    ⟨⟨[], ?_, (congrFun hsp.value _).trans hc.value, fun q hq => ?_, ?_, ?_⟩, ?_⟩,
    fun n hn => ?_,
    List.nodup_cons.mpr ⟨fun hm => absurd (hfresh _ hm) (lt_irrefl _), h.nodup⟩⟩
  · refine (hc.bounded.update_kids (by omega) fun q hq => ?_).of_le (by rw [hsp.next])
    rcases List.mem_append.mp hq with hq | hq
    · exact hc.bounded.kids _ q hq
    · rw [List.mem_singleton.mp hq]
      omega
  · obtain ⟨hC, hA₀, hv⟩ := h.old q hq
    exact ⟨fun hqr => (Function.update_noteq (h.cursor_ne_old hq hqr) _ _).trans (hC hqr),
      (hA q (by omega)).trans hA₀, (hval q (by omega)).trans hv⟩
  · -- the root's list ends in the outermost open element
    cases ps with
    | nil => simp [hks]
    | cons n ps =>
      have hrn : r ≠ n := by have := (h.fresh n (List.mem_cons_self _ _)).1; omega
      rw [List.headD_cons, Function.update_noteq hrn, hks, List.getLast?_cons_cons]
  · rw [Function.update_noteq (ne_of_lt hplt).symm, (h.bounded.fresh _ le_rfl).1]
    rfl
  · simp only [Function.update_same, List.mem_range'_1] at hq
    refine ⟨by omega, by omega, fun hm => ?_⟩
    rcases List.mem_cons.mp hm with hm | hm
    · omega
    · have := hfresh q hm
      omega
  · have : s₂.attrOf = s₁.attrOf := by
      funext q
      simp only [Store.attrOf, hsp.value]
    rw [this, Function.update_same]
    exact hc.attr_values
  · exact repListIn_nil_nil
  · -- the element outside ends in the new one
    cases ps with
    | nil =>
      obtain ⟨ks0, os⟩ := a
      obtain rfl : os = [] := attached_nil_left.mp h.opens
      exact trivial
    | cons n ps =>
      obtain ⟨ks0, _ | ⟨o, os⟩⟩ := a
      · exact absurd h.opens attached_cons_nil
      · obtain ⟨⟨kn, hC, ho⟩, hos⟩ := h.opens
        have hnps : n ∉ ps := (List.nodup_cons.mp h.nodup).1
        have hn := hfresh n (List.mem_cons_self _ _)
        refine ⟨⟨kn, by simp [hC], ho.move hag hK (hval n hn) (hA n hn)⟩,
          hos.move hag hK fun m hm => ⟨hval m (hfresh m (List.mem_cons_of_mem _ hm)),
            Function.update_noteq (fun e : m = n => hnps (e ▸ hm)) _ _,
            hA m (hfresh m (List.mem_cons_of_mem _ hm))⟩⟩
  · rcases List.mem_cons.mp hn with rfl | hn
    · exact ⟨hgrows, by omega⟩
    · exact ⟨(h.fresh n hn).1, by have := hfresh n hn; omega⟩

/-- **An end tag** closes the innermost open element, already linked where it belongs: the
machine adds its tree under the element outside. -/
theorem pop {ks : List DTree} {o : StartElement × List DTree}
    {os : List (StartElement × List DTree)} {n : Nat}
    (h : DBuilds s₀ C₀ A₀ r s C A ⟨ks, o :: os⟩ (n :: ps)) :
    DBuilds s₀ C₀ A₀ r s C A ((⟨ks, os⟩ : Build).addAll [elementTree o.1 o.2]) ps := by
  obtain ⟨⟨kn, hC, ho⟩, hos⟩ := h.opens
  obtain ⟨hlo, hlt⟩ := h.fresh n (List.mem_cons_self _ _)
  have hr := h.root_lt
  have hK : ∀ q, Done s r (n :: ps) q → Done s r ps q :=
    fun q hq => ⟨hq.1, hq.2.1, fun m => hq.2.2 (List.mem_cons_of_mem _ m)⟩
  have hag : AgreeOn (Done s r (n :: ps)) s s C C A A := fun _ _ => ⟨rfl, rfl, rfl⟩
  have hn : Done s r ps n := ⟨hlt, by omega, (List.nodup_cons.mp h.nodup).1⟩
  have ht : RepIn (Done s r ps) s C A n (elementTree o.1 o.2) := by
    rw [Option.toList_none, List.append_nil] at hC
    exact (hC ▸ ho.move hag hK rfl rfl).repIn hn
  obtain ⟨kr, hkr, hrep⟩ := h.root
  refine ⟨h.shape, h.bounded, hr, h.root_kind, h.grows, h.old, ?_, ?_,
    fun m hm => h.fresh m (List.mem_cons_of_mem _ hm), (List.nodup_cons.mp h.nodup).2⟩
  · cases ps with
    | nil =>
      obtain rfl : os = [] := attached_nil_left.mp hos
      exact ⟨kr ++ [n], by simpa using hkr, (hrep.mono hK).concat ht⟩
    | cons m ps =>
      obtain _ | ⟨⟨se, kids⟩, os⟩ := os
      · exact absurd hos attached_cons_nil
      · exact ⟨kr, by rwa [List.getLast?_cons_cons] at hkr, hrep.mono hK⟩
  · cases ps with
    | nil =>
      obtain rfl : os = [] := attached_nil_left.mp hos
      exact trivial
    | cons m ps =>
      obtain _ | ⟨⟨se, kids⟩, os⟩ := os
      · exact absurd hos attached_cons_nil
      · obtain ⟨⟨km, hCm, hom⟩, hos⟩ := hos
        exact ⟨⟨km ++ [n], by simpa using hCm, (hom.move hag hK rfl rfl).push ht⟩,
          hos.move hag hK fun _ _ => ⟨rfl, rfl, rfl⟩⟩

/-- **A node with no children**, created and linked under the cursor, is added there. -/
theorem leaf (h : DBuilds s₀ C₀ A₀ r s C A a ps) {s₁ : Store} {v : Value}
    {attrs : List Attr} (hc : Created s s₁ C A v attrs)
    (hk : allowInsertChild (a.cursorType (s₀.nodeType r)) v.nodeType = true) :
    ∃ s', AppendChild (ps.headD r) s.next s₁ = some (none, s') ∧
      ∃ C' A', DBuilds s₀ C₀ A₀ r s' C' A' (a.addAll [.node v attrs []]) ps := by
  obtain ⟨h₁, ht⟩ := h.create hc
  have hnext := hc.next
  have hr := h.root_lt
  have hgrows := h.grows
  have hc₁ : Done s₁ r ps s.next :=
    ⟨by omega, by omega, fun hm => absurd (h.fresh _ hm).2 (lt_irrefl _)⟩
  obtain ⟨s', hs', h'⟩ := h₁.attach hc₁ hc.detached ht
    (by rw [h₁.cursorType_eq, nodeType_of_value hc.value]; exact hk)
  exact ⟨s', hs', _, _, h'⟩

end DBuilds

/-! ## The decoder's state -/

/-- The Builder options the decoder is compared with: white space kept, nothing trimmed. -/
def wsOpts : Bitflag := (NewBuilder 0 [WithWhitespacePCData]).opts

@[simp] theorem textOf_wsOpts (cd : String) : Builder.textOf wsOpts cd = some cd := by
  have hws : wsOpts.Has parseWSPCData = true := by decide
  have htrim : wsOpts.Has parseTrimPCData = false := by decide
  simp [Builder.textOf, hws, htrim]

/-- The decoder `un` over the store `s` stands for the machine state `a`, in a run begun at
the root `r` of `s₀`: it is not skipping, passes names through and has recorded no error;
its node cursor is the innermost open element, and the frame pushed for each open element
puts the cursor back on the element outside. -/
def DSim (s₀ : Store) (C₀ A₀ : Nat → List Nat) (r : Nat) (un : Decoder) (s : Store)
    (a : Build) : Prop :=
  un.skip = false ∧ un.childname = .rfc6020 ∧ un.errors = [] ∧
    ∃ C A ps, un.Node = ps.headD r ∧ un.stack.map Restore.node = (ps ++ [r]).tail ∧
      DBuilds s₀ C₀ A₀ r s C A a ps

theorem frames_cons (n r : Nat) (ps : List Nat) :
    (n :: ps ++ [r]).tail = ps.headD r :: (ps ++ [r]).tail := by
  cases ps <;> rfl

/-- Running a frame when not skipping: the cursor moves, nothing else does. -/
@[simp] theorem Restore.apply_skip (f : Restore) (un : Decoder) (h : un.skip = false) :
    (f.apply un).skip = false := by
  simp [Restore.apply, h]

/-- With an element open, the innermost frame puts the cursor on the element outside it. -/
theorem stack_of_cons {stack : List Restore} {n r : Nat} {ps : List Nat}
    (h : stack.map Restore.node = (n :: ps ++ [r]).tail) :
    ∃ f rest, stack = f :: rest ∧ f.node = ps.headD r ∧
      rest.map Restore.node = (ps ++ [r]).tail := by
  rw [frames_cons] at h
  obtain ⟨f, rest, rfl, hf, hrest⟩ := List.map_eq_cons_iff.mp h
  exact ⟨f, rest, rfl, hf, hrest⟩

section Handlers

variable {s₀ s s' : Store} {C₀ A₀ : Nat → List Nat} {r : Nat} {un un' : Decoder} {a : Build}

/-- **A start tag** that records no error is the machine's step: the element is created,
linked under the cursor and opened. -/
theorem startElement_dsim (h : DSim s₀ C₀ A₀ r un s a) (se : Xml.StartElement)
    (hs : Decoder.StartElement se un s = some (none, un', s')) (he : un'.errors = []) :
    DSim s₀ C₀ A₀ r un' s' ⟨a.kids, (se, []) :: a.opens⟩ := by
  obtain ⟨hskip, hname, herr, C, A, ps, hcur, hstack, hB⟩ := h
  rcases hres : un.resolve se.name with err | ⟨name, e⟩
  · simp only [Decoder.StartElement, hres, Option.some.injEq, Prod.mk.injEq] at hs
    obtain ⟨-, rfl, -⟩ := hs
    simp at he
  · obtain rfl := Decoder.resolve_rfc6020 hname hres
    obtain ⟨s₁, hs₁, hc⟩ := newStartElement_spec hB.shape hB.bounded se
    obtain ⟨s₂, hs₂, hB'⟩ := hB.start hc
    rw [← hcur] at hs₂
    have hse : ({ se with name := se.name } : Xml.StartElement) = se := rfl
    simp only [Decoder.StartElement, hres, hskip, hse, hs₁, hs₂, Bool.false_eq_true, if_false,
      Option.some.injEq, Prod.mk.injEq] at hs
    obtain ⟨-, rfl, rfl⟩ := hs
    exact ⟨rfl, hname, herr, _, _, s.next :: ps, rfl,
      by simp only [List.map_cons, hstack, hcur, frames_cons], hB'⟩

/-- **An end tag** pops the innermost frame, which puts the cursor back on the element
outside: the machine's step. -/
theorem endElement_dsim (h : DSim s₀ C₀ A₀ r un s a) (opts : Bitflag) (en : Name)
    (hs : Decoder.EndElement un s = some (none, un', s')) :
    ∃ a', Build.step opts (s₀.nodeType r) (.endElement en) a = some a' ∧
      DSim s₀ C₀ A₀ r un' s' a' := by
  obtain ⟨hskip, hname, herr, C, A, ps, hcur, hstack, hB⟩ := h
  cases ps with
  | nil => simp [Decoder.EndElement, List.map_eq_nil_iff.mp hstack] at hs
  | cons n ps =>
    obtain ⟨f, rest, hst, hf, hrest⟩ := stack_of_cons hstack
    obtain ⟨ks, _ | ⟨⟨se, kids⟩, os⟩⟩ := a
    · exact absurd hB.opens attached_cons_nil
    · simp only [Decoder.EndElement, hst, Option.some.injEq, Prod.mk.injEq] at hs
      obtain ⟨-, rfl, rfl⟩ := hs
      exact ⟨_, rfl, Restore.apply_skip _ _ hskip, hname, herr, C, A, ps, hf, hrest, hB.pop⟩

/-- **Character data and the end tag after it** are the machine's two steps: the text is
linked under the innermost open element; the frame the character data runs puts the cursor
on the element outside, and the end tag runs that frame again and pops it. -/
theorem charData_dsim (h : DSim s₀ C₀ A₀ r un s a) (cd : String) (en : Name)
    {un₁ : Decoder} {s₁ : Store} (hc : Decoder.CharData cd un s = some (none, un₁, s₁))
    (he : un₁.errors = []) (hs : Decoder.EndElement un₁ s₁ = some (none, un', s')) :
    ∃ a', Build.run wsOpts (s₀.nodeType r) [.charData cd, .endElement en] a = some a' ∧
      DSim s₀ C₀ A₀ r un' s' a' := by
  obtain ⟨hskip, hname, -, C, A, ps, hcur, hstack, hB⟩ := h
  rcases Decoder.charData_cases hc with
    ⟨hskip', -⟩ | ⟨-, es, f, rest, -, hst, ⟨_, -, he', -⟩ | ⟨happ, -, rfl⟩⟩
  · rw [hskip] at hskip'
    cases hskip'
  · cases he'
  · cases ps with
    | nil => simp [List.map_eq_nil_iff.mp hstack] at hst
    | cons n ps =>
      obtain ⟨f', rest', hst', hf, hrest⟩ := stack_of_cons hstack
      obtain ⟨rfl, rfl⟩ := List.cons.inj (hst.symm.trans hst')
      obtain ⟨ks, _ | ⟨⟨se, kids⟩, os⟩⟩ := a
      · exact absurd hB.opens attached_cons_nil
      · obtain ⟨s₂, hs₂, C', A', hB'⟩ :=
          hB.leaf (created_push hB.shape hB.bounded (.text cd)) rfl
        rw [← hcur, happ] at hs₂
        obtain rfl : s₁ = s₂ := (Prod.mk.inj (Option.some.inj hs₂)).2
        simp only [Decoder.EndElement, Restore.apply, hst, Option.some.injEq,
          Prod.mk.injEq] at hs
        obtain ⟨-, rfl, rfl⟩ := hs
        refine ⟨(⟨ks, os⟩ : Build).addAll [elementTree se (kids ++ [.node (.text cd) [] []])],
          by simp [Build.run, Build.step, leafAccepts, leafTrees, Build.cursorType,
            allowInsertChild], by simp [hskip], hname, he, C', A', ps, hf, hrest, ?_⟩
        simp only [Build.addAll_open] at hB'
        exact hB'.pop

end Handlers

/-! ## Whole runs -/

/-- `<a><b>1</b><c>2</c></a>`, for `abModules`. -/
def abForest : List TokenTree :=
  [.element ⟨⟨"urn:m", "a"⟩, []⟩ ⟨"urn:m", "a"⟩
    [.element ⟨⟨"", "b"⟩, []⟩ ⟨"", "b"⟩ [.charData "1"],
      .element ⟨⟨"", "c"⟩, []⟩ ⟨"", "c"⟩ [.charData "2"]]]

/-- Every token is a start tag, an end tag or character data, and every piece of character
data is directly followed by an end tag. -/
def charDataLast : List Token → Bool
  | [] => true
  | .startElement _ :: ts => charDataLast ts
  | .endElement _ :: ts => charDataLast ts
  | .charData _ :: .endElement _ :: ts => charDataLast ts
  | _ :: _ => false

section Runs

variable {s₀ : Store} {C₀ A₀ : Nat → List Nat} {r : Nat}

/-- **A whole run.** Fed such input without a fatal error and ending with no error recorded,
the decoder holds the machine's final state. -/
theorem dsim_feed : ∀ (ts : List Token) {un : Decoder} {s : Store} {a : Build},
    charDataLast ts = true → DSim s₀ C₀ A₀ r un s a →
    ∀ {un' : Decoder} {s' : Store}, Decoder.feed ts un s = some (none, un', s') →
      un'.errors = [] →
      ∃ a', Build.run wsOpts (s₀.nodeType r) ts a = some a' ∧ DSim s₀ C₀ A₀ r un' s' a'
  | [], _, _, a, _, h, _, _, hf, _ => by
    simp only [Decoder.feed_nil, Option.some.injEq, Prod.mk.injEq, true_and] at hf
    obtain ⟨rfl, rfl⟩ := hf
    exact ⟨a, rfl, h⟩
  | t :: ts, un, s, a, hl, h, un', s', hf, he => by
    obtain ⟨un₁, s₁, hs₁, hf₁⟩ := Decoder.feed_cons_ok hf
    have he₁ : un₁.errors = [] := List.prefix_nil.mp (he ▸ Decoder.feed_errors ts hf₁)
    cases t with
    | startElement se =>
      obtain ⟨a', hrun, h'⟩ := dsim_feed ts hl (startElement_dsim h se hs₁ he₁) hf₁ he
      exact ⟨a', by simpa [Build.run, Build.step] using hrun, h'⟩
    | endElement en =>
      obtain ⟨a₁, hstep, h₁⟩ := endElement_dsim h wsOpts en hs₁
      obtain ⟨a', hrun, h'⟩ := dsim_feed ts hl h₁ hf₁ he
      exact ⟨a', by simp [Build.run, hstep, hrun], h'⟩
    | charData cd =>
      cases ts with
      | nil => simp [charDataLast] at hl
      | cons t ts =>
        cases t with
        | endElement en =>
          obtain ⟨un₂, s₂, hs₂, hf₂⟩ := Decoder.feed_cons_ok hf₁
          obtain ⟨a₁, hrun₁, h₁⟩ := charData_dsim h cd en hs₁ he₁ hs₂
          obtain ⟨a', hrun, h'⟩ := dsim_feed ts hl h₁ hf₂ he
          have hpair : Build.run wsOpts (s₀.nodeType r) ([.charData cd, .endElement en] ++ ts) a =
              some a' := by
            rw [Build.run_append, hrun₁]
            exact hrun
          exact ⟨a', hpair, h'⟩
        | _ => simp [charDataLast] at hl
    | _ => simp [charDataLast] at hl

end Runs

/-- **The decoder builds the Builder's forest.** Fed a balanced sequence of start tags, end
tags and character data in which each piece of character data is directly followed by an
end tag, the schema decoder started under an empty document with the pass-through resolver,
if it ends without a fatal error and with no error recorded, is back at the document, whose
children stand for the reference forest of the sequence; and the Builder, keeping white
space and trimming nothing, succeeds on the same sequence, back at the document, whose
children stand for the same forest. -/
theorem decoder_builds_builderForest (ms : Collection) (f : List TokenTree)
    (hf : charDataLast (TokenTree.tokensList f) = true) {un' : Decoder} {s' : Store}
    (hrun : Decoder.feed (TokenTree.tokensList f) (Decoder.new 0 ms .rfc6020) emptyDocument =
      some (none, un', s'))
    (he : un'.errors = []) :
    un'.Node = 0 ∧
    (∃ C A, Shape s' C A ∧ RepList s' C A (C 0) (TokenTree.refList wsOpts f)) ∧
    ∃ b' s'', Builder.feed (TokenTree.tokensList f) (NewBuilder 0 [WithWhitespacePCData])
        emptyDocument = some (none, b', s'') ∧ b'.node = 0 ∧
      ∃ C A, Shape s'' C A ∧ RepList s'' C A (C 0) (TokenTree.refList wsOpts f) := by
  have hs : Shape emptyDocument (fun _ => []) (fun _ => []) := (Linkless.empty.push _).shape
  have hr : 0 < emptyDocument.next := by decide
  have hk : emptyDocument.nodeType 0 = .document ∨ emptyDocument.nodeType 0 = .element := .inl rfl
  -- the decoder holds the machine's final state
  obtain ⟨a', hm, -, -, -, C, A, ps, hcur, -, hB⟩ := dsim_feed _ hf
    (show DSim emptyDocument (fun _ => []) (fun _ => []) 0 (Decoder.new 0 ms .rfc6020)
      emptyDocument ⟨[], []⟩ from
      ⟨rfl, rfl, rfl, _, _, [], rfl, rfl, DBuilds.init hs (Bounded.nil _) hr hk⟩) hrun he
  obtain rfl := Build.run_tokensList f hm
  obtain rfl : ps = [] := by
    cases ps with
    | nil => rfl
    | cons n ps => exact absurd hB.opens attached_cons_nil
  obtain ⟨ks, hks, hrep⟩ := hB.root
  -- and so does the Builder
  have hsim := feed_sim (TokenTree.tokensList f)
    (show Sim wsOpts emptyDocument (fun _ => []) (fun _ => []) 0
      (NewBuilder 0 [WithWhitespacePCData]) emptyDocument ⟨[], []⟩ from
      ⟨rfl, _, _, [], rfl, Builds.init hs (Bounded.nil _) hr rfl hk⟩)
  rw [hm] at hsim
  rcases hbf : Builder.feed (TokenTree.tokensList f) (NewBuilder 0 [WithWhitespacePCData])
    emptyDocument with _ | ⟨_ | e, b', s''⟩ <;> rw [hbf] at hsim
  · exact hsim.elim
  · obtain ⟨-, C', A', ps', hcur', hB'⟩ := hsim
    obtain rfl : ps' = [] := by
      cases ps' with
      | nil => rfl
      | cons n ps' => exact absurd hB'.opens opens_cons_nil
    obtain ⟨ks', hks', hrep'⟩ := hB'.root
    refine ⟨hcur, ⟨C, A, hB.shape, ?_⟩, b', s'', rfl, hcur', C', A', hB'.shape, ?_⟩
    · simpa [hks] using hrep.mono fun _ _ => trivial
    · simpa [hks'] using hrep'.mono fun _ _ => trivial
  · exact hsim.elim

/-- `<a><b>1</b><c>2</c></a>` against `abModules`: each leaf's text comes last in it. -/
theorem decoder_builds_builderForest_ab :
    charDataLast (TokenTree.tokensList abForest) = true ∧
    ∃ un' s', Decoder.feed (TokenTree.tokensList abForest) (Decoder.new 0 abModules .rfc6020)
        emptyDocument = some (none, un', s') ∧ un'.errors = [] ∧
      (un'.Node = 0 ∧
        (∃ C A, Shape s' C A ∧ RepList s' C A (C 0) (TokenTree.refList wsOpts abForest)) ∧
        ∃ b' s'', Builder.feed (TokenTree.tokensList abForest)
            (NewBuilder 0 [WithWhitespacePCData]) emptyDocument = some (none, b', s'') ∧
          b'.node = 0 ∧
          ∃ C A, Shape s'' C A ∧ RepList s'' C A (C 0) (TokenTree.refList wsOpts abForest)) :=
  ⟨rfl, _, _, rfl, rfl, decoder_builds_builderForest abModules abForest rfl rfl rfl⟩

end Opr8.Datastore
