import Opr8.Dom.Build

/-!
# Opr8 — the Builder refines the abstract machine

`Builds s₀ C₀ A₀ r s C A a ps` says that the store `s`, read through the child lists `C`
and the attribute lists `A`, holds the machine state `a` of a run begun at the root `r`
of the store `s₀`: the root's child list is its old one followed by nodes standing for
`a.kids`; the open elements are the nodes `ps`, innermost first, each detached, each with
its parent link on the next one, and each holding its start tag and nodes standing for its
finished children; and nothing else of `s₀` changed. The representations are over the
finished nodes (`Done`), which no later handler touches, so every step carries them over
by `RepIn.transport`.

There is one lemma per kind of step: `Builds.start` (a start tag), `Builds.pop` then
`Builds.attach` (an end tag), and `Builds.create` then `Builds.attach` (the node an event
adds). `handle_sim` assembles them: each handler either succeeds, and the machine steps to
the state the new store holds, or returns an error, and the machine fails.

Main results:

* `feed_sim` — fed any token list, the Builder errs exactly when the machine does, and
  otherwise holds the machine's final state.
* `builder_builds_refForest` — fed a balanced sequence without error from a root of kind
  Document or Element, the Builder is back at the root, the store is well formed, and the
  root's child list is its old one followed by the reference forest of the sequence.
-/

namespace Opr8.Dom

open Xml Store

/-! ## Open elements -/

/-- The finished nodes of a run from the root `r` while the elements `ps` are open:
allocated, neither the root nor open. -/
def Done (s : Store) (r : Nat) (ps : List Nat) (q : Nat) : Prop :=
  q < s.next ∧ q ≠ r ∧ q ∉ ps

/-- The open element `n` holds the start tag `o.1` and the finished children `o.2`. -/
def OpenRep (K : Nat → Prop) (s : Store) (C A : Nat → List Nat) (n : Nat)
    (o : StartElement × List DTree) : Prop :=
  s.value n = some (.element o.1.name "") ∧ (∀ a ∈ A n, K a) ∧
    (A n).map s.attrOf = o.1.attr.map some ∧ RepListIn K s C A (C n) o.2

/-- The open elements `ps`, innermost first, hold the frames `os`; the parent link of each
is the next one, and the outermost one's is the root `r`. -/
def Opens (K : Nat → Prop) (s : Store) (C A : Nat → List Nat) (r : Nat) :
    List Nat → List (StartElement × List DTree) → Prop
  | [], [] => True
  | n :: ps, o :: os =>
    OpenRep K s C A n o ∧ s.parent n = some (ps.headD r) ∧ Opens K s C A r ps os
  | _, _ => False

section Opens

variable {K K' : Nat → Prop} {s s' : Store} {C C' A A' : Nat → List Nat} {r : Nat}

@[simp] theorem opens_nil_left {os : List (StartElement × List DTree)} :
    Opens K s C A r [] os ↔ os = [] := by
  cases os <;> simp [Opens]

theorem opens_cons_nil {n : Nat} {ps : List Nat} : ¬ Opens K s C A r (n :: ps) [] := by
  simp [Opens]

/-- An open element, once finished, stands for its tree. -/
theorem OpenRep.repIn {n : Nat} {o : StartElement × List DTree} (h : OpenRep K s C A n o)
    (hn : K n) : RepIn K s C A n (elementTree o.1 o.2) :=
  repIn_node.mpr ⟨hn, h⟩

/-- An open element survives a change that agrees on the finished nodes and keeps its
payload and attributes, with whatever children now stand for `kids`. -/
theorem OpenRep.relist (hag : AgreeOn K s s' C C' A A') (hK : ∀ q, K q → K' q) {n : Nat}
    {o : StartElement × List DTree} (hv : s'.value n = s.value n) (hA : A' n = A n)
    (h : OpenRep K s C A n o) {kids : List DTree} (hl : RepListIn K' s' C' A' (C' n) kids) :
    OpenRep K' s' C' A' n (o.1, kids) := by
  obtain ⟨hval, ha, hm, -⟩ := h
  refine ⟨hv.trans hval, fun a m => hK a (ha a (by rwa [hA] at m)), ?_, hl⟩
  rw [hA, ← hm]
  exact List.map_congr_left fun a m => by simp only [Store.attrOf, (hag a (ha a m)).1]

theorem OpenRep.move (hag : AgreeOn K s s' C C' A A') (hK : ∀ q, K q → K' q) {n : Nat}
    {o : StartElement × List DTree} (hv : s'.value n = s.value n) (hC : C' n = C n)
    (hA : A' n = A n) (h : OpenRep K s C A n o) : OpenRep K' s' C' A' n o :=
  h.relist hag hK hv hA (by rw [hC]; exact (h.2.2.2.transport hag).mono hK)

theorem Opens.move (hag : AgreeOn K s s' C C' A A') (hK : ∀ q, K q → K' q) :
    ∀ {ps : List Nat} {os : List (StartElement × List DTree)},
    (∀ n ∈ ps, s'.value n = s.value n ∧ C' n = C n ∧ A' n = A n ∧ s'.parent n = s.parent n) →
    Opens K s C A r ps os → Opens K' s' C' A' r ps os
  | [], [], _, _ => trivial
  | n :: _, _ :: _, hn, ⟨ho, hp, hos⟩ =>
    have ⟨hv, hC, hA, hpar⟩ := hn n (List.mem_cons_self _ _)
    ⟨ho.move hag hK hv hC hA, hpar.trans hp,
      Opens.move hag hK (fun m hm => hn m (List.mem_cons_of_mem _ hm)) hos⟩
  | [], _ :: _, _, h => h.elim
  | _ :: _, [], _, h => h.elim

end Opens

/-! ## The invariant -/

/-- The store `s` with lists `C`, `A` holds the machine state `a`, the open elements being
the nodes `ps`, in a run of the Builder begun at the root `r` of the store `s₀` with lists
`C₀`, `A₀`. -/
structure Builds (s₀ : Store) (C₀ A₀ : Nat → List Nat) (r : Nat) (s : Store)
    (C A : Nat → List Nat) (a : Build) (ps : List Nat) : Prop where
  shape : Shape s C A
  bounded : Bounded s C A
  root_lt : r < s₀.next
  root_parent : s₀.parent r = none
  root_kind : s₀.nodeType r = .document ∨ s₀.nodeType r = .element
  grows : s₀.next ≤ s.next
  old : ∀ q < s₀.next, (q ≠ r → C q = C₀ q) ∧ A q = A₀ q ∧ s.value q = s₀.value q ∧
    s.parent q = s₀.parent q
  root : ∃ ks, C r = C₀ r ++ ks ∧ RepListIn (Done s r ps) s C A ks a.kids
  opens : Opens (Done s r ps) s C A r ps a.opens
  fresh : ∀ n ∈ ps, s₀.next ≤ n ∧ n < s.next ∧ Detached s C A n
  nodup : ps.Nodup

namespace Builds

variable {s₀ s : Store} {C₀ A₀ C A : Nat → List Nat} {r : Nat} {a : Build} {ps : List Nat}

/-- A run starts with nothing built and nothing open. -/
theorem init (hs : Shape s C A) (hb : Bounded s C A) (hr : r < s.next)
    (hp : s.parent r = none) (hk : s.nodeType r = .document ∨ s.nodeType r = .element) :
    Builds s C A r s C A ⟨[], []⟩ [] :=
  ⟨hs, hb, hr, hp, hk, le_rfl, fun _ _ => ⟨fun _ => rfl, rfl, rfl, rfl⟩,
    ⟨[], by simp, repListIn_nil_nil⟩, trivial, by simp, List.nodup_nil⟩

/-- The cursor's kind is the machine's. -/
theorem cursorType_eq (h : Builds s₀ C₀ A₀ r s C A a ps) :
    s.nodeType (ps.headD r) = a.cursorType (s₀.nodeType r) := by
  rcases a with ⟨ks, os⟩
  have ho := h.opens
  cases ps with
  | nil =>
    obtain rfl : os = [] := opens_nil_left.mp ho
    simp [Build.cursorType, Store.nodeType, (h.old r h.root_lt).2.2.1]
  | cons n ps =>
    cases os with
    | nil => exact absurd ho opens_cons_nil
    | cons o os => simp [Build.cursorType, nodeType_of_value ho.1.1, Value.nodeType]

/-- The cursor is the root or an open element. -/
theorem cursor_lt (h : Builds s₀ C₀ A₀ r s C A a ps) :
    (ps.headD r = r ∨ ps.headD r ∈ ps) ∧ ps.headD r < s.next := by
  cases ps with
  | nil => exact ⟨.inl rfl, lt_of_lt_of_le h.root_lt h.grows⟩
  | cons n ps => exact ⟨.inr (List.mem_cons_self _ _), (h.fresh n (List.mem_cons_self _ _)).2.1⟩

/-- **Creating a node** keeps the invariant, and the node stands for its own tree. -/
theorem create (h : Builds s₀ C₀ A₀ r s C A a ps) {s₁ : Store} {v : Value}
    {attrs : List Attr} (hc : Created s s₁ C A v attrs) :
    Builds s₀ C₀ A₀ r s₁ C (Function.update A s.next (List.range' (s.next + 1) attrs.length))
      a ps ∧
    RepIn (Done s₁ r ps) s₁ C (Function.update A s.next (List.range' (s.next + 1) attrs.length))
      s.next (.node v attrs []) := by
  have hnext := hc.next
  have hgrows := h.grows
  have hr := h.root_lt
  have hK : ∀ q, Done s r ps q → Done s₁ r ps q := fun q hq => ⟨by have := hq.1; omega, hq.2⟩
  have hag : AgreeOn (Done s r ps) s s₁ C C A _ := fun q hq => hc.agreeOn q hq.1
  have hold : ∀ n < s.next, s₁.value n = s.value n ∧ C n = C n ∧
      Function.update A s.next (List.range' (s.next + 1) attrs.length) n = A n ∧
      s₁.parent n = s.parent n :=
    fun n hn => ⟨(hc.kept n hn).2.2, rfl, Function.update_noteq (ne_of_lt hn) _ _, (hc.kept n hn).1⟩
  obtain ⟨ks, hks, hrep⟩ := h.root
  refine ⟨⟨hc.shape, hc.bounded, hr, h.root_parent, h.root_kind, by omega, fun q hq => ?_,
    ⟨ks, hks, (hrep.transport hag).mono hK⟩,
    h.opens.move hag hK fun n hn => hold n (h.fresh n hn).2.1, fun n hn => ?_, h.nodup⟩,
    hc.repIn h.bounded fun q hq hq' => ⟨hq', by omega, fun hm => ?_⟩⟩
  · obtain ⟨hC, hA, hv, hp⟩ := h.old q hq
    obtain ⟨hv', -, hA', hp'⟩ := hold q (by omega)
    exact ⟨hC, hA'.trans hA, hv'.trans hv, hp'.trans hp⟩
  · obtain ⟨hlo, hlt, hd⟩ := h.fresh n hn
    exact ⟨hlo, by omega, hc.detached_of_lt hd hlt⟩
  · have := (h.fresh q hm).2.1
    omega

/-- **A start tag** opens the created element above the cursor. -/
theorem start (h : Builds s₀ C₀ A₀ r s C A a ps) {s₁ : Store} {se : StartElement}
    (hc : Created s s₁ C A (.element se.name "") se.attr) :
    Builds s₀ C₀ A₀ r (s₁.setParent s.next (some (ps.headD r))) C
      (Function.update A s.next (List.range' (s.next + 1) se.attr.length))
      ⟨a.kids, (se, []) :: a.opens⟩ (s.next :: ps) := by
  have hnext := hc.next
  have hgrows := h.grows
  have hr := h.root_lt
  have hfresh : ∀ n ∈ ps, n < s.next := fun n hn => (h.fresh n hn).2.1
  have hK : ∀ q, Done s r ps q → Done (s₁.setParent s.next (some (ps.headD r))) r (s.next :: ps) q :=
    fun q hq => ⟨by have := hq.1; simp only [setParent_next]; omega, hq.2.1,
      List.not_mem_cons_of_ne_of_not_mem (ne_of_lt hq.1) hq.2.2⟩
  have hold : ∀ n < s.next, (s₁.setParent s.next (some (ps.headD r))).value n = s.value n ∧
      C n = C n ∧ Function.update A s.next (List.range' (s.next + 1) se.attr.length) n = A n ∧
      (s₁.setParent s.next (some (ps.headD r))).parent n = s.parent n :=
    fun n hn => ⟨(hc.kept n hn).2.2, rfl, Function.update_noteq (ne_of_lt hn) _ _,
      by simp [Function.update_noteq (ne_of_lt hn), (hc.kept n hn).1]⟩
  have hag : AgreeOn (Done s r ps) s (s₁.setParent s.next (some (ps.headD r))) C C A _ :=
    fun q hq => ⟨(hold q hq.1).1, rfl, (hold q hq.1).2.2.1⟩
  obtain ⟨ks, hks, hrep⟩ := h.root
  refine ⟨hc.shape.setParent hc.detached.kids _, ⟨hc.bounded.1, hc.bounded.2, hc.bounded.3⟩, hr,
    h.root_parent, h.root_kind, by simp only [setParent_next]; omega, fun q hq => ?_,
    ⟨ks, hks, (hrep.transport hag).mono hK⟩,
    ⟨⟨hc.value, fun q hq => ?_, by simpa using hc.attr_values, ?_⟩, by simp,
      h.opens.move hag hK fun n hn => hold n (hfresh n hn)⟩, fun n hn => ?_,
    List.nodup_cons.mpr ⟨fun hm => absurd (hfresh _ hm) (lt_irrefl _), h.nodup⟩⟩
  · obtain ⟨hC, hA, hv, hp⟩ := h.old q hq
    obtain ⟨hv', -, hA', hp'⟩ := hold q (by omega)
    exact ⟨hC, hA'.trans hA, hv'.trans hv, hp'.trans hp⟩
  · simp only [Function.update_same, List.mem_range'_1] at hq
    refine ⟨by simp only [setParent_next]; omega, by omega, fun hm => ?_⟩
    rcases List.mem_cons.mp hm with hm | hm
    · omega
    · have := hfresh q hm
      omega
  · rw [(h.bounded.fresh _ le_rfl).1]
    exact repListIn_nil_nil
  · rcases List.mem_cons.mp hn with rfl | hn
    · exact ⟨hgrows, by simp only [setParent_next]; omega, hc.detached.setParent _ _⟩
    · obtain ⟨hlo, hlt, hd⟩ := h.fresh n hn
      exact ⟨hlo, by simp only [setParent_next]; omega, (hc.detached_of_lt hd hlt).setParent _ _⟩

/-- **An end tag** closes the innermost open element: what is left holds the rest, and the
element is a finished, detached node standing for its tree, with its parent link on the
new cursor. -/
theorem pop {ks : List DTree} {o : StartElement × List DTree}
    {os : List (StartElement × List DTree)} {n : Nat}
    (h : Builds s₀ C₀ A₀ r s C A ⟨ks, o :: os⟩ (n :: ps)) :
    Builds s₀ C₀ A₀ r s C A ⟨ks, os⟩ ps ∧ Done s r ps n ∧ s₀.next ≤ n ∧ Detached s C A n ∧
      RepIn (Done s r ps) s C A n (elementTree o.1 o.2) ∧ s.parent n = some (ps.headD r) := by
  obtain ⟨ho, hpar, hos⟩ := h.opens
  obtain ⟨hlo, hlt, hd⟩ := h.fresh n (List.mem_cons_self _ _)
  have hr := h.root_lt
  have hK : ∀ q, Done s r (n :: ps) q → Done s r ps q :=
    fun q hq => ⟨hq.1, hq.2.1, fun m => hq.2.2 (List.mem_cons_of_mem _ m)⟩
  have hag : AgreeOn (Done s r (n :: ps)) s s C C A A := fun _ _ => ⟨rfl, rfl, rfl⟩
  have hn : Done s r ps n := ⟨hlt, by omega, (List.nodup_cons.mp h.nodup).1⟩
  obtain ⟨ks', hks, hrep⟩ := h.root
  exact ⟨⟨h.shape, h.bounded, hr, h.root_parent, h.root_kind, h.grows, h.old,
    ⟨ks', hks, hrep.mono hK⟩, hos.move hag hK fun _ _ => ⟨rfl, rfl, rfl, rfl⟩,
    fun m hm => h.fresh m (List.mem_cons_of_mem _ hm), (List.nodup_cons.mp h.nodup).2⟩,
    hn, hlo, hd, (ho.move hag hK rfl rfl rfl).repIn hn, hpar⟩

/-- **Linking a finished node** under the cursor keeps the invariant, with the node's tree
added under the cursor. -/
theorem attach (h : Builds s₀ C₀ A₀ r s C A a ps) {c : Nat} {t : DTree}
    (hc : Done s r ps c) (hlo : s₀.next ≤ c) (hd : Detached s C A c)
    (ht : RepIn (Done s r ps) s C A c t)
    (hk : allowInsertChild (s.nodeType (ps.headD r)) (s.nodeType c) = true) :
    ∃ s', AppendChild (ps.headD r) c s = some (none, s') ∧
      Builds s₀ C₀ A₀ r s' (Function.update C (ps.headD r) (C (ps.headD r) ++ [c])) A
        (a.addAll [t]) ps := by
  obtain ⟨s', hApp, hsp⟩ := appendChild_detached h.shape hd _ hk
  obtain ⟨hp, hplt⟩ := h.cursor_lt
  have hr := h.root_lt
  have hcps : c ∉ ps := hc.2.2
  have hdone : ∀ q, Done s r ps q → q ≠ ps.headD r := fun q hq e =>
    hp.elim (fun e' => hq.2.1 (e.trans e')) (fun m => hq.2.2 (e ▸ m))
  have hag : AgreeOn (Done s r ps) s s' C
      (Function.update C (ps.headD r) (C (ps.headD r) ++ [c])) A A :=
    fun q hq => ⟨congrFun hsp.value q, Function.update_noteq (hdone q hq) _ _, rfl⟩
  have hK : ∀ q, Done s r ps q → Done s' r ps q := fun q hq => by
    simpa only [Done, hsp.next] using hq
  have hmove : ∀ n ∈ ps, n ≠ ps.headD r → s'.value n = s.value n ∧
      Function.update C (ps.headD r) (C (ps.headD r) ++ [c]) n = C n ∧ A n = A n ∧
      s'.parent n = s.parent n := fun n hn hnp =>
    ⟨congrFun hsp.value n, Function.update_noteq hnp _ _, rfl,
      hsp.parent_other n fun e => hcps (e ▸ hn)⟩
  have ht' := (ht.transport hag).mono hK
  obtain ⟨ks, hks, hrep⟩ := h.root
  have hrep' := (hrep.transport hag).mono hK
  refine ⟨s', hApp, hsp.shape, ?_, hr, h.root_parent, h.root_kind, hsp.next ▸ h.grows,
    fun q hq => ?_, ?_, ?_, fun n hn => ?_, h.nodup⟩
  · refine (h.bounded.update_kids hplt fun q hq => ?_).of_le (by rw [hsp.next])
    rcases List.mem_append.mp hq with hq | hq
    · exact h.bounded.kids _ q hq
    · rw [List.mem_singleton.mp hq]
      exact hc.1
  · obtain ⟨hC, hA, hv, hpar⟩ := h.old q hq
    refine ⟨fun hqr => ?_, hA, (congrFun hsp.value q).trans hv,
      (hsp.parent_other q (by omega)).trans hpar⟩
    have hqp : q ≠ ps.headD r := fun e =>
      hp.elim (fun e' => hqr (e.trans e')) (fun m => by have := (h.fresh _ m).1; omega)
    exact (Function.update_noteq hqp _ _).trans (hC hqr)
  · -- the root's list grows only when nothing is open
    cases ps with
    | nil =>
      obtain ⟨ks0, os⟩ := a
      obtain rfl : os = [] := opens_nil_left.mp h.opens
      exact ⟨ks ++ [c], by simp [hks], hrep'.concat ht'⟩
    | cons n ps =>
      obtain ⟨ks0, _ | ⟨⟨se, kids⟩, os⟩⟩ := a
      · exact absurd h.opens opens_cons_nil
      · have hrn : r ≠ n := by have := (h.fresh n (List.mem_cons_self _ _)).1; omega
        exact ⟨ks, by rw [List.headD_cons, Function.update_noteq hrn, hks], hrep'⟩
  · -- otherwise the innermost open element's list grows
    cases ps with
    | nil =>
      obtain ⟨ks0, os⟩ := a
      obtain rfl : os = [] := opens_nil_left.mp h.opens
      exact trivial
    | cons n ps =>
      obtain ⟨ks0, _ | ⟨⟨se, kids⟩, os⟩⟩ := a
      · exact absurd h.opens opens_cons_nil
      · obtain ⟨ho, hpar, hos⟩ := h.opens
        have hnps : n ∉ ps := (List.nodup_cons.mp h.nodup).1
        refine ⟨ho.relist hag hK (congrFun hsp.value n) rfl ?_,
          (hsp.parent_other n fun e => hcps (e ▸ List.mem_cons_self _ _)).trans hpar,
          hos.move hag hK fun m hm => hmove m (List.mem_cons_of_mem _ hm) fun e => hnps (by simpa [e] using hm)⟩
        rw [List.headD_cons, Function.update_same]
        exact ((ho.2.2.2.transport hag).mono hK).concat ht'
  · obtain ⟨hlo', hlt', hdn⟩ := h.fresh n hn
    have hnc : n ≠ c := fun e => hcps (e ▸ hn)
    refine ⟨hlo', by rw [hsp.next]; exact hlt', (hsp.nextSib n (hdn.kids _) hnc).trans hdn.nextSib,
      fun q hq => ?_, hdn.attrs⟩
    rcases eq_or_ne q (ps.headD r) with rfl | hqp
    · rw [Function.update_same] at hq
      rcases List.mem_append.mp hq with hq | hq
      · exact hdn.kids _ hq
      · exact hnc (List.mem_singleton.mp hq)
    · rw [Function.update_noteq hqp] at hq
      exact hdn.kids q hq

/-- **An event's node**: creating it and linking it under the cursor keeps the invariant,
with its tree added under the cursor. -/
theorem leaf (h : Builds s₀ C₀ A₀ r s C A a ps) {s₁ : Store} {v : Value} {attrs : List Attr}
    (hc : Created s s₁ C A v attrs)
    (hk : allowInsertChild (a.cursorType (s₀.nodeType r)) v.nodeType = true) :
    ∃ s', AppendChild (ps.headD r) s.next s₁ = some (none, s') ∧
      ∃ C' A', Builds s₀ C₀ A₀ r s' C' A' (a.addAll [.node v attrs []]) ps := by
  obtain ⟨h₁, ht⟩ := h.create hc
  have hnext := hc.next
  have hr := h.root_lt
  have hgrows := h.grows
  have hc₁ : Done s₁ r ps s.next :=
    ⟨by omega, by omega, fun hm => absurd (h.fresh _ hm).2.1 (lt_irrefl _)⟩
  obtain ⟨s', hs', h'⟩ := h₁.attach hc₁ hgrows hc.detached ht
    (by rw [h₁.cursorType_eq, nodeType_of_value hc.value]; exact hk)
  exact ⟨s', hs', _, _, h'⟩

end Builds

/-! ## One handler call, one machine step -/

/-- The Builder `b` over the store `s` stands for the machine state `a`, in a run begun at
the root `r` of `s₀` with the options `opts`. -/
def Sim (opts : Bitflag) (s₀ : Store) (C₀ A₀ : Nat → List Nat) (r : Nat) (b : Builder)
    (s : Store) (a : Build) : Prop :=
  b.opts = opts ∧ ∃ C A ps, b.node = ps.headD r ∧ Builds s₀ C₀ A₀ r s C A a ps

/-- A Builder outcome answers a machine outcome: both succeed, in states `R` relates, or
both fail. A panic answers nothing. -/
def Matches (R : Builder → Store → Build → Prop) :
    Option (Option Error × Builder × Store) → Option Build → Prop
  | some (none, b, s), some a => R b s a
  | some (some _, _, _), none => True
  | _, _ => False

section Handlers

variable {opts : Bitflag} {s₀ s : Store} {C₀ A₀ C A : Nat → List Nat} {r : Nat} {a : Build}
  {ps : List Nat} {b : Builder}

variable (hB : Builds s₀ C₀ A₀ r s C A a ps) (hcur : b.node = ps.headD r) (hopts : b.opts = opts)
include hB hcur hopts

/-- Nothing added: the state is kept. -/
theorem matches_keep : Matches (Sim opts s₀ C₀ A₀ r) (some (none, b, s)) (some a) :=
  ⟨hopts, C, A, ps, hcur, hB⟩

/-- A node created and appended to the cursor. -/
theorem matches_leaf {s₁ : Store} {v : Value} {attrs : List Attr}
    (hc : Created s s₁ C A v attrs)
    (hk : allowInsertChild (a.cursorType (s₀.nodeType r)) v.nodeType = true) :
    Matches (Sim opts s₀ C₀ A₀ r) (b.appendToCursor (s.next, s₁))
      (some (a.addAll [.node v attrs []])) := by
  obtain ⟨s', hs', C', A', hB'⟩ := hB.leaf hc hk
  simp only [Builder.appendToCursor, hcur, hs', Option.map_some']
  exact ⟨hopts, C', A', ps, hcur, hB'⟩

theorem startElement_sim (se : StartElement) :
    Matches (Sim opts s₀ C₀ A₀ r) (Builder.StartElement se b s)
      (Build.step opts (s₀.nodeType r) (.startElement se) a) := by
  obtain ⟨s₁, hs₁, hc⟩ := newStartElement_spec hB.shape hB.bounded se
  rcases a with ⟨ks, os⟩
  simp only [Builder.StartElement, hs₁, Option.map_some', Build.step, Matches, hcur]
  exact ⟨hopts, C, _, s.next :: ps, rfl, hB.start hc⟩

theorem endElement_sim (en : Name) :
    Matches (Sim opts s₀ C₀ A₀ r) (Builder.EndElement b s)
      (Build.step opts (s₀.nodeType r) (.endElement en) a) := by
  rcases a with ⟨ks, os⟩
  cases ps with
  | nil =>
    -- nothing open: the root has no parent
    obtain rfl : os = [] := opens_nil_left.mp hB.opens
    have hp : s.parent b.node = none := by
      rw [hcur]
      exact (hB.old r hB.root_lt).2.2.2.trans hB.root_parent
    simp [Builder.EndElement, hp, Build.step, Matches]
  | cons n ps =>
    cases os with
    | nil => exact absurd hB.opens opens_cons_nil
    | cons o os =>
      have hv := hB.opens.1.1
      obtain ⟨hB', hn, hlo, hd, ht, hpar⟩ := hB.pop
      have hk : allowInsertChild (s.nodeType (ps.headD r)) (s.nodeType n) = true := by
        rw [hB'.cursorType_eq, nodeType_of_value hv]
        rcases os with _ | _ <;> rcases hB.root_kind with hk | hk <;>
          simp [Build.cursorType, hk, Value.nodeType, allowInsertChild]
      obtain ⟨s', hs', hB''⟩ := hB'.attach hn hlo hd ht hk
      simp only [Builder.EndElement, hcur, List.headD_cons, hpar, hs', Build.step, Matches]
      exact ⟨hopts, _, _, ps, rfl, hB''⟩

theorem charData_sim (cd : String) :
    Matches (Sim opts s₀ C₀ A₀ r) (Builder.CharData cd b s)
      (Build.step opts (s₀.nodeType r) (.charData cd) a) := by
  have hnt : s.nodeType b.node = a.cursorType (s₀.nodeType r) := hcur ▸ hB.cursorType_eq
  rw [Builder.charData_eq, hopts, hnt]
  simp only [Build.step, leafAccepts, leafTrees]
  cases hk : allowInsertChild (a.cursorType (s₀.nodeType r)) .text
  · simp [allowInsertChildErr, hk, Matches]
  · rcases hd : Builder.textOf opts cd with _ | d
    · simpa [allowInsertChildErr, hk] using matches_keep hB hcur hopts
    · simpa [allowInsertChildErr, hk, newText] using
        matches_leaf hB hcur hopts (created_push hB.shape hB.bounded (.text d)) hk

theorem comment_sim (c : String) :
    Matches (Sim opts s₀ C₀ A₀ r) (Builder.Comment c b s)
      (Build.step opts (s₀.nodeType r) (.comment c) a) := by
  have hnt : s.nodeType b.node = a.cursorType (s₀.nodeType r) := hcur ▸ hB.cursorType_eq
  simp only [Builder.Comment, hopts, hnt, Build.step, leafAccepts, leafTrees]
  cases hc : opts.Has parseComments
  · simpa using matches_keep hB hcur hopts
  · cases hk : allowInsertChild (a.cursorType (s₀.nodeType r)) .comment
    · simp [allowInsertChildErr, hk, Matches]
    · simpa [allowInsertChildErr, hk, newComment] using
        matches_leaf hB hcur hopts (created_push hB.shape hB.bounded (.comment c)) hk

theorem procInst_sim (pi : ProcInst) :
    Matches (Sim opts s₀ C₀ A₀ r) (Builder.ProcInst pi b s)
      (Build.step opts (s₀.nodeType r) (.procInst pi) a) := by
  have hnt : s.nodeType b.node = a.cursorType (s₀.nodeType r) := hcur ▸ hB.cursorType_eq
  simp only [Builder.ProcInst, hopts, hnt, Build.step, leafAccepts, leafTrees, procInstTrees]
  cases hk : allowInsertChild (a.cursorType (s₀.nodeType r)) (Builder.procInstType pi)
  · simp [allowInsertChildErr, hk, Matches]
  · simp only [allowInsertChildErr, hk, if_true, Builder.procInstType] at hk ⊢
    by_cases hx : pi.target = "xml"
    · simp only [hx, if_true] at hk ⊢
      cases hd : opts.Has parseDeclaration
      · simpa using matches_keep hB hcur hopts
      · obtain ⟨s₁, hs₁, hc⟩ := newDeclaration_spec hB.shape hB.bounded pi
        simpa [hs₁] using matches_leaf hB hcur hopts hc hk
    · simp only [hx, if_false] at hk ⊢
      cases hd : opts.Has parsePI
      · simpa using matches_keep hB hcur hopts
      · simpa [newProcInst] using
          matches_leaf hB hcur hopts (created_push hB.shape hB.bounded (.procinst pi)) hk

end Handlers

variable {opts : Bitflag} {s₀ : Store} {C₀ A₀ : Nat → List Nat} {r : Nat}

/-- **One token.** Each handler call answers the machine's step. -/
theorem handle_sim {b : Builder} {s : Store} {a : Build} (h : Sim opts s₀ C₀ A₀ r b s a)
    (t : Token) :
    Matches (Sim opts s₀ C₀ A₀ r) (Builder.handle t b s) (Build.step opts (s₀.nodeType r) t a) := by
  obtain ⟨hopts, C, A, ps, hcur, hB⟩ := h
  cases t with
  | startElement se => exact startElement_sim hB hcur hopts se
  | endElement en => exact endElement_sim hB hcur hopts en
  | charData cd => exact charData_sim hB hcur hopts cd
  | comment c => exact comment_sim hB hcur hopts c
  | procInst pi => exact procInst_sim hB hcur hopts pi
  | directive d => simp [Builder.Directive, Build.step, leafAccepts, Matches]

/-- **Any token list.** Fed a token list, the Builder errs exactly when the machine does,
and otherwise holds the machine's final state. -/
theorem feed_sim : ∀ (ts : List Token) {b : Builder} {s : Store} {a : Build},
    Sim opts s₀ C₀ A₀ r b s a →
    Matches (Sim opts s₀ C₀ A₀ r) (Builder.feed ts b s) (Build.run opts (s₀.nodeType r) ts a)
  | [], _, _, _, h => h
  | t :: ts, b, s, a, h => by
    have hstep := handle_sim h t
    rw [Builder.feed_cons]
    simp only [Build.run]
    revert hstep
    rcases Builder.handle t b s with _ | ⟨_ | e, b', s'⟩ <;>
      rcases Build.step opts (s₀.nodeType r) t a with _ | a' <;> intro hstep <;>
      simp only [Matches, Option.none_bind, Option.some_bind] at hstep ⊢
    exact feed_sim ts hstep

/-- **The Builder builds the reference forest.** Fed a balanced sequence without error from
a root of kind Document or Element, with no parent, in a well-formed store, the Builder is
back at the root; the store is well formed; the root's child list is its old one followed
by nodes standing for the reference forest of the sequence; and every other node of the
old store keeps its children, attributes, payload and parent. -/
theorem builder_builds_refForest (opts : Bitflag) (f : List TokenTree) {s : Store}
    {C A : Nat → List Nat} {r : Nat} (hs : Shape s C A) (hb : Bounded s C A) (hr : r < s.next)
    (hroot : s.parent r = none) (hkind : s.nodeType r = .document ∨ s.nodeType r = .element)
    {b' : Builder} {s' : Store}
    (hrun : Builder.feed (TokenTree.tokensList f) ⟨r, opts⟩ s = some (none, b', s')) :
    b'.node = r ∧ ∃ C' A' ks, Shape s' C' A' ∧ Bounded s' C' A' ∧ C' r = C r ++ ks ∧
      RepList s' C' A' ks (TokenTree.refList opts f) ∧
      ∀ q < s.next, (q ≠ r → C' q = C q) ∧ A' q = A q ∧ s'.value q = s.value q ∧
        s'.parent q = s.parent q := by
  have hsim := feed_sim (TokenTree.tokensList f)
    (show Sim opts s C A r ⟨r, opts⟩ s ⟨[], []⟩ from
      ⟨rfl, C, A, [], rfl, Builds.init hs hb hr hroot hkind⟩)
  rw [hrun] at hsim
  rcases hm : Build.run opts (s.nodeType r) (TokenTree.tokensList f) ⟨[], []⟩ with _ | a'
  · simp [hm, Matches] at hsim
  · rw [hm] at hsim
    obtain ⟨-, C', A', ps, hcur, hB⟩ := hsim
    obtain rfl := Build.run_tokensList f hm
    obtain rfl : ps = [] := by
      cases ps with
      | nil => rfl
      | cons n ps => exact absurd hB.opens opens_cons_nil
    obtain ⟨ks, hks, hrep⟩ := hB.root
    exact ⟨hcur, C', A', ks, hB.shape, hB.bounded, hks, by simpa using hrep.mono fun _ _ => trivial,
      hB.old⟩

/-- A store holding one empty Document, at pointer `0`. -/
def emptyDocument : Store := (newDocument Store.empty).2

theorem builder_builds_refForest_emptyDocument :
    ∃ b' s', Builder.feed (TokenTree.tokensList
        [.element ⟨⟨"", "a"⟩, []⟩ ⟨"", "a"⟩ [.charData "hi"]]) ⟨0, ⟨0⟩⟩ emptyDocument =
        some (none, b', s') ∧
      (b'.node = 0 ∧ ∃ C' A' ks, Shape s' C' A' ∧ Bounded s' C' A' ∧ C' 0 = [] ++ ks ∧
        RepList s' C' A' ks
          (TokenTree.refList ⟨0⟩ [.element ⟨⟨"", "a"⟩, []⟩ ⟨"", "a"⟩ [.charData "hi"]]) ∧
        ∀ q < emptyDocument.next, (q ≠ 0 → C' q = []) ∧ A' q = [] ∧
          s'.value q = emptyDocument.value q ∧ s'.parent q = emptyDocument.parent q) :=
  have hs : Shape emptyDocument (fun _ => []) (fun _ => []) := (Linkless.empty.push _).shape
  ⟨_, _, rfl, builder_builds_refForest ⟨0⟩ _ hs (Bounded.nil _)
    (show 0 < emptyDocument.next by decide) rfl (.inl rfl) rfl⟩

end Opr8.Dom
