import LexScript.Proofs.Watching.Order

/-!
# Access to open frames

In order, the frame at a distance is the one that was made for the scope at that distance. Where
the scopes bind `this`, it is an instance of the class whose methods lie around, and where they bind
`super`, it is the superclass of that class, one frame further out.

## Main statements

* `AreOpen.ancestor?` : the frame at a distance.
* `InOrder.exists_this`, `InOrder.exists_super` : what `this` and `super` are bound to.
-/

namespace LexScript

variable {h : Heap} {H : History} {display : List Activation}

/-- The frame at a distance is the one that was made for the scope there. -/
theorem AreOpen.ancestor? (ho : AreOpen h H display) {d : Nat} {a : Activation}
    (hd : display[d]? = some a) :
    h.frames.ancestor? (innermostFrame display) d = some a.frame := by
  induction display generalizing d with
  | nil => cases hd
  | cons b outer ih =>
    cases d with
    | zero =>
      cases hd
      rfl
    | succ d =>
      rw [innermostFrame, Frames.ancestor?, ho.1.encloses]
      exact ih ho.2 hd

theorem AreOpen.drop (ho : AreOpen h H display) (n : Nat) : AreOpen h H (display.drop n) := by
  induction n generalizing display with
  | zero => exact ho
  | succ n ih =>
    cases display with
    | nil => trivial
    | cons a outer => exact ih ho.2

/-- The scope in which a name is found binds it, and no scope further in does. -/
theorem exists_of_scopesUp? {x : Name} {e : Nat}
    (hup : scopesUp? x (display.map Activation.scope) = some e) :
    ∃ a outer, display.drop e = a :: outer ∧ a.scope.binds x = true := by
  induction display generalizing e with
  | nil => cases hup
  | cons a outer ih =>
    rw [List.map_cons, scopesUp?_cons] at hup
    split at hup
    · next hbinds =>
      cases hup
      exact ⟨a, outer, rfl, hbinds⟩
    · obtain ⟨e, he, rfl⟩ := Option.map_eq_some_iff.1 hup
      exact ih he

theorem getElem?_of_drop {α : Type} {l rest : List α} {n : Nat} {a : α}
    (hl : l.drop n = a :: rest) : l[n]? = some a := by
  have hhead := congrArg List.head? hl
  rwa [List.head?_drop] at hhead

/-- A method of a class is running, and its `this` is bound in a frame: the instance is one of that
class or of a class that inherits from it. -/
structure ThisIsBound (h : Heap) (H : History) (methods : List FunctionDecl)
    (outer : List Activation) (frame c i : Nat) : Prop where
  origin : H.classes[c]? = some ⟨methods, outer⟩
  find : h.frames.find? frame .this = some (.instanceRef i)
  descends : ∃ d, h.classOf? i = some d ∧ h.Descends d c

/-- Where scopes bind `this`, a method is running whose `this` is bound in the frame there. -/
theorem InOrder.exists_this {m : Machine} (ho : InOrder m H) {e : Nat}
    (hup : scopesUp? .this H.scopes = some e) :
    ∃ methods frame c i outer, H.display.drop e = ⟨thisScope methods, frame, some c⟩ :: outer ∧
      m.heap.frames.ancestor? m.current e = some frame ∧
      ThisIsBound m.heap H methods outer frame c i := by
  obtain ⟨a, outer, hdrop, hbinds⟩ := exists_of_scopesUp? hup
  have hopen := ho.isOpen.drop e
  rw [hdrop] at hopen
  have hancestor := ho.isOpen.ancestor? (getElem?_of_drop hdrop)
  rw [← ho.current] at hancestor
  cases hopen.1.serves with
  | body hscope =>
    rw [hscope .this rfl] at hbinds
    cases hbinds
  | this hc hi hd hdescends =>
    exact ⟨_, _, _, _, outer, hdrop, hancestor, hc, hi, _, hd, hdescends⟩
  | super => exact nomatch (hbinds : false = true)

/-- Where scopes bind `super` one scope further out than `this`, it is the superclass of the class
whose method is running. -/
theorem InOrder.exists_super {m : Machine} (ho : InOrder m H) {e : Nat}
    (hthis : scopesUp? .this H.scopes = some e)
    (hsuper : scopesUp? .super H.scopes = some (e + 1)) :
    ∃ methods frame c i outer, H.display.drop e = ⟨thisScope methods, frame, some c⟩ :: outer ∧
      m.heap.frames.ancestor? m.current e = some frame ∧
      ThisIsBound m.heap H methods outer frame c i ∧
      ∃ record s f, m.heap.classes[c]? = some record ∧ record.superclass = some s ∧
        m.heap.frames.ancestor? m.current (e + 1) = some f ∧
        m.heap.frames.find? f .super = some (.classRef s) := by
  obtain ⟨methods, frame, c, i, outer, hdrop, hancestor, hbound⟩ := ho.exists_this hthis
  refine ⟨methods, frame, c, i, outer, hdrop, hancestor, hbound, ?_⟩
  obtain ⟨a, outer', hdrop', hbinds⟩ := exists_of_scopesUp? hsuper
  have houter : outer = a :: outer' := by
    rw [← hdrop', ← List.tail_drop, hdrop, List.tail_cons]
  have hancestor' := ho.isOpen.ancestor? (getElem?_of_drop hdrop')
  rw [← ho.current] at hancestor'
  have horigin := hbound.origin
  have hlt : c < m.heap.classes.size := by
    rw [← ho.tells.size_classes]
    exact (Array.getElem?_eq_some_iff.1 horigin).1
  have hrecord := Array.getElem?_eq_getElem hlt
  have hinherits := (ho.tells.classes c _ _ hrecord horigin).inherits
  cases hs : m.heap.classes[c].superclass with
  | none =>
    rw [hs, houter] at hinherits
    rw [hinherits a rfl .super rfl] at hbinds
    cases hbinds
  | some s =>
    rw [hs] at hinherits
    obtain ⟨f, rest, hdisplay, hfind⟩ := hinherits
    have ha : a = ⟨superScope methods, f, none⟩ :=
      List.head_eq_of_cons_eq (houter.symm.trans hdisplay)
    rw [ha] at hancestor'
    exact ⟨_, s, f, hrecord, hs, hancestor', hfind⟩

end LexScript
