import Mathlib.Data.List.Forall2
import SourceGen.Proofs.Emission

/-!
# Restored states

What an emitter opens it closes again. Between the two it stands deeper than where it started, but
still above the same loops and at the same nesting, so its steps are followed from one depth to the
next: a header leads one level deeper, a closing brace one level back, and everything else stays
where it is.

## Main definitions

* `OpenLoop.Kept`: a loop before and after.
* `Emitter.Within`: the state some levels deeper; no levels deeper, it is restored.
* `Emit.Shifts`: an emitter that leads from one depth to another.

## Main results

* `Emit.Shifts.bind`, `Emit.Shifts.openBlock`, `Emit.Shifts.closeBlock`, …: the rules for sequences.
* `Emit.Follows.restores`: what follows a generator restores the state.
-/

namespace SourceGen

/-- The loop has the same number, and so the same label, and as many switches are open in it; only
the label may have come into use. -/
structure OpenLoop.Kept (before after : OpenLoop) : Prop where
  number_eq : after.number = before.number
  switchDepth_eq : after.switchDepth = before.switchDepth
  exitUsed_of : before.exitUsed = true → after.exitUsed = true

namespace OpenLoop.Kept

theorem refl (loop : OpenLoop) : loop.Kept loop := ⟨rfl, rfl, id⟩

theorem trans {a b c : OpenLoop} (h : a.Kept b) (h' : b.Kept c) : a.Kept c :=
  ⟨h'.number_eq.trans h.number_eq, h'.switchDepth_eq.trans h.switchDepth_eq,
    h'.exitUsed_of ∘ h.exitUsed_of⟩

/-- The jumps behind a loop go to the same label. -/
theorem label_eq {a b : OpenLoop} (h : a.Kept b) : b.label = a.label := by
  rw [label, label, h.number_eq]

theorem forall₂_trans {as bs cs : List OpenLoop} (h : List.Forall₂ Kept as bs) :
    List.Forall₂ Kept bs cs → List.Forall₂ Kept as cs := by
  induction h generalizing cs with
  | nil => exact id
  | cons hab _ ih =>
    rintro (_ | ⟨hbc, hbcs⟩)
    exact .cons (hab.trans hbc) (ih hbcs)

end OpenLoop.Kept

namespace Emitter

/-- The state is `depth` levels deeper than before. The nesting, the layout and the loops are as
before, and there was no step back from the margin. -/
structure Within (depth : Nat) (before after : Emitter) : Prop where
  level_eq : after.out.level = before.out.level + depth
  layout_eq : after.out.layout = before.out.layout
  nesting_eq : after.nesting = before.nesting
  loops_kept : List.Forall₂ OpenLoop.Kept before.loops after.loops
  slips_eq : after.slips = before.slips

/-- The level is the one before as well. -/
abbrev Restored (before after : Emitter) : Prop := Within 0 before after

namespace Within

variable {depth deeper : Nat} {before between after : Emitter}

theorem refl (st : Emitter) : st.Restored st :=
  ⟨rfl, rfl, rfl, List.forall₂_same.mpr fun loop _ => .refl loop, rfl⟩

/-- One depth adds to the other. -/
theorem trans (h : before.Within depth between) (h' : between.Within deeper after) :
    before.Within (depth + deeper) after where
  level_eq := by rw [h'.level_eq, h.level_eq, Nat.add_assoc]
  layout_eq := h'.layout_eq.trans h.layout_eq
  nesting_eq := h'.nesting_eq.trans h.nesting_eq
  loops_kept := OpenLoop.Kept.forall₂_trans h.loops_kept h'.loops_kept
  slips_eq := h'.slips_eq.trans h.slips_eq

/-- Writing moves the margin alone. -/
theorem write {f : Buffer → Buffer} (h : before.Within depth after)
    (hf : ∀ b, (f b).layout = b.layout) (hlevel : ∀ b, (f b).level + depth = b.level + deeper) :
    before.Within deeper (after.write f) where
  level_eq := by
    have := hlevel after.out
    have := h.level_eq
    simp only [out_write]
    omega
  layout_eq := (hf after.out).trans h.layout_eq
  nesting_eq := h.nesting_eq
  loops_kept := h.loops_kept
  slips_eq := h.slips_eq

/-- Inside of a block there is a level to go back. -/
theorem closeBlock (h : before.Within (depth + 1) after) (suffix : String) :
    before.Within depth (after.closeBlock suffix) := by
  have hpos : 0 < after.out.level := by
    rw [h.level_eq]
    omega
  rw [closeBlock_of_pos suffix hpos]
  exact ⟨by simp [h.level_eq], h.layout_eq, h.nesting_eq, h.loops_kept, h.slips_eq⟩

end Within

/-- Code is written at the margin where it stands. -/
theorem restored_put (st : Emitter) (code : List Code) : st.Restored (st.put code) :=
  ⟨level_put code, layout_put code, rfl, (Within.refl st).loops_kept, rfl⟩

end Emitter

namespace Emit

/-- From every state with this layout of braces, the emitter restores the state. -/
def Restores {α : Type} (braces : BraceStyle) (x : Emit α) : Prop :=
  ∀ st : Emitter, st.out.style = braces → (x st).Always fun r => st.Restored r.2

/-- Some levels deeper than a state with this layout of braces, the emitter leads to the same or
another depth. -/
def Shifts {α : Type} (braces : BraceStyle) (start stop : Nat) (x : Emit α) : Prop :=
  ∀ ⦃before st : Emitter⦄, before.out.style = braces → before.Within start st →
    (x st).Always fun r => before.Within stop r.2

variable {α β : Type} {braces : BraceStyle} {x : Emit α} {k : α → Emit β} {l m n : Nat}

/-- Whatever the emitter follows, what it leaves behind is the last state that is read off. -/
theorem Follows.restores {st : Emitter} {y : Gen β} {r : β → α × Emitter} (h : Follows st x y r)
    (hr : ∀ b, st.Restored (r b).2) : (x st).Always fun r => st.Restored r.2 := by
  rw [show x st = _ from h, map_eq_pure_bind]
  exact .after fun b => .pure (hr b)

theorem Renders.restores {y : Gen β} {view : Emitter → β → α} (h : Renders braces view x y) :
    Restores braces x :=
  fun st hst => (h st hst).restores fun _ => .refl st

theorem Shifts.restores (h : Shifts braces 0 0 x) : Restores braces x :=
  fun st hst => h hst (.refl st)

namespace Shifts

theorem of_restores (h : Restores braces x) : Shifts braces n n x := fun _ st hbefore hst =>
  (h st ((congrArg LayoutStyle.braces hst.layout_eq).trans hbefore)).mono fun _ => hst.trans

theorem pure (a : α) : Shifts braces n n (Pure.pure a : Emit α) :=
  fun _ _ _ hst => .pure hst

theorem bind (hx : Shifts braces l m x) (hk : ∀ a, Shifts braces m n (k a)) :
    Shifts braces l n (x >>= k) := fun _ _ hbefore hst =>
  Gen.Always.bind (hx hbefore hst) fun r hr => hk r.1 hbefore hr

/-- What only reads and writes the journal. -/
theorem lifted (y : Gen α) : Shifts braces n n (liftM y : Emit α) :=
  of_restores fun st _ =>
    Follows.restores (y := y) (r := fun a => (a, st)) rfl fun _ => .refl st

theorem lift {y : Gen α} (hk : ∀ a, Shifts braces m n (k a)) :
    Shifts braces m n (liftM y >>= k) :=
  bind (lifted y) hk

theorem fail (e : Failure) : Shifts braces m n (liftM (Gen.fail e : Gen α) : Emit α) :=
  fun _ st _ _ => Gen.Always.failed (f := fun a => Pure.pure (a, st)) e

theorem line (s : String) : Shifts braces n n (Emit.line s) := fun _ _ _ hst =>
  .pure (hst.write (f := (·.line s)) (fun _ => rfl) fun _ => rfl)

theorem separator : Shifts braces n n Emit.separator := fun _ _ _ hst =>
  .pure (hst.write Buffer.layout_separator fun b => by rw [b.level_separator])

/-- A header leads one level deeper. -/
theorem openBlock (s : String) : Shifts braces n (n + 1) (Emit.openBlock s) := fun _ _ _ hst =>
  .pure (hst.write (f := (·.openBlock s)) (·.layout_openBlock s) fun b => by
    rw [b.level_openBlock]
    omega)

/-- A closing brace leads one level back. -/
theorem closeBlock (s : String) : Shifts braces (n + 1) n (Emit.closeBlock s) := fun _ _ _ hst =>
  .pure (hst.closeBlock s)

/-- A block is closed at the depth where it was opened. -/
theorem block {x : Emit Unit} (s suffix : String) (hx : Shifts braces (n + 1) (n + 1) x) :
    Shifts braces n n
      (Emit.openBlock s >>= fun _ => x >>= fun _ => Emit.closeBlock suffix) :=
  bind (openBlock s) fun _ => bind hx fun _ => closeBlock suffix

end Shifts

end Emit

end SourceGen
