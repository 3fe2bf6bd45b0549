import SourceGen.CSharp.Emit.Body
import SourceGen.Proofs.CSharp.JumpBound
import SourceGen.Proofs.Emission

/-!
# Loops that are being written

The generator of a statement is told the loop around it, and what it writes jumps behind that loop
by number. An emitter has a stack of loops instead. It marks the innermost one when it jumps behind
it, so that the loop gets its label. In what the generator writes, all such jumps belong to the loop
around the code: other loops have numbers of their own. So the mark says what a search for the
number finds.

## Main definitions

* `Code.anyLeavesHere`: code jumps behind the loop around it.
* `Emitter.wrote`: the state behind some code, with the innermost loop marked.
* `CSharp.Fits`: the state of an emitter in a given loop.

## Main results

* `CSharp.Written.anyLeaves_eq`: a search for the number of a loop finds the jumps of its own code.
* `CSharp.follows_emitLoop`, `CSharp.adds_emitSwitch`: an emitter that follows the generator in a
  body follows it in a loop and in a switch.
-/

namespace SourceGen

/-! ### Jumps behind the loop around some code -/

namespace Code

mutual

/-- The item jumps behind the loop around it. -/
def leavesHere : Code → Bool
  | .jump (.leaveLoop _) => true
  | .block .function _ _ _ => false
  | .block (.loop (some _)) _ _ _ => false
  | .block _ _ body _ => anyLeavesHere body
  | .braces body => anyLeavesHere body
  | .indented body => anyLeavesHere body
  | _ => false

/-- One of the items jumps behind the loop around them. -/
def anyLeavesHere : List Code → Bool
  | [] => false
  | c :: cs => c.leavesHere || anyLeavesHere cs

end

@[simp] theorem anyLeavesHere_nil : anyLeavesHere [] = false := rfl

@[simp] theorem anyLeavesHere_cons (c : Code) (cs : List Code) :
    anyLeavesHere (c :: cs) = (c.leavesHere || anyLeavesHere cs) := rfl

/-- Two parts leave the loop around them when one of them does. -/
@[simp] theorem anyLeavesHere_append (cs ds : List Code) :
    anyLeavesHere (cs ++ ds) = (anyLeavesHere cs || anyLeavesHere ds) := by
  induction cs with
  | nil => rfl
  | cons c cs ih => simp [ih, Bool.or_assoc]

end Code

/-! ### Loops of the state -/

namespace OpenLoop

/-- What the generator of a statement knows of a loop. -/
def frame (loop : OpenLoop) : CSharp.LoopFrame :=
  ⟨loop.number, decide (0 < loop.switchDepth)⟩

/-- The innermost loop. -/
def innermost (loops : List OpenLoop) : Option CSharp.LoopFrame :=
  loops.head?.map frame

end OpenLoop

namespace Emitter

variable {st : Emitter} {used used' : Bool}

/-- The label behind the innermost loop may have come into use. -/
def mark (used : Bool) (st : Emitter) : Emitter :=
  st.onInnermost fun loop => { loop with exitUsed := loop.exitUsed || used }

/-- The state behind some code, which may jump behind the innermost loop. -/
def wrote (code : List Code) (st : Emitter) : Emitter :=
  (st.put code).mark (Code.anyLeavesHere code)

/-- The state behind an item, which may jump behind the innermost loop. -/
def wroteOne (c : Code) (st : Emitter) : Emitter :=
  (st.putOne c).mark c.leavesHere

@[simp] theorem out_mark : (st.mark used).out = st.out := rfl

@[simp] theorem nesting_mark : (st.mark used).nesting = st.nesting := rfl

@[simp] theorem mark_false : st.mark false = st := by
  obtain ⟨out, nesting, _ | ⟨loop, loops⟩, slips⟩ := st <;> simp [mark, onInnermost]

/-- A loop is marked once it is marked at all. -/
@[simp] theorem mark_mark : (st.mark used).mark used' = st.mark (used || used') := by
  obtain ⟨out, nesting, _ | ⟨loop, loops⟩, slips⟩ := st <;>
    simp [mark, onInnermost, Bool.or_assoc]

/-- Marking the open loop and writing code may be exchanged. -/
theorem put_mark (code : List Code) : (st.mark used).put code = (st.put code).mark used := rfl

@[simp] theorem wrote_nil : st.wrote [] = st := mark_false

/-- What is written in two parts is written one after the other, marks included. -/
@[simp] theorem wrote_append (cs ds : List Code) :
    st.wrote (cs ++ ds) = (st.wrote cs).wrote ds := by
  simp [wrote, put_mark]

@[simp] theorem wrote_cons (c : Code) (cs : List Code) :
    st.wrote (c :: cs) = (st.wroteOne c).wrote cs := by
  simp [wrote, wroteOne, put_mark]

/-- Code without a jump behind the loop marks nothing. -/
theorem wroteOne_of_stays {c : Code} (h : c.leavesHere = false) : st.wroteOne c = st.putOne c := by
  rw [wroteOne, h, mark_false]

@[simp] theorem wroteOne_line (f : Fragment) :
    st.wroteOne (.line f) = st.write (·.line (st.render f)) :=
  wroteOne_of_stays rfl

@[simp] theorem wroteOne_text (s : String) : st.wroteOne (.text s) = st.write (·.line s) :=
  (wroteOne_of_stays rfl).trans (putOne_text s)

@[simp] theorem wroteOne_separator : st.wroteOne .separator = st.write Buffer.separator :=
  wroteOne_of_stays rfl

@[simp] theorem wroteOne_verbatim (s : String) :
    st.wroteOne (.verbatim s) = st.write (·.verbatim s) :=
  wroteOne_of_stays rfl

@[simp] theorem wroteOne_endCase : st.wroteOne (.jump .endCase) = st.write (·.line "break;") :=
  wroteOne_of_stays rfl

@[simp] theorem wroteOne_nextRound :
    st.wroteOne (.jump .nextRound) = st.write (·.line "continue;") :=
  wroteOne_of_stays rfl

/-- A plain block stays in the loop around it, so its body may mark that loop. -/
@[simp] theorem wroteOne_plain (header : Fragment) (body : List Code) (suffix : String) :
    st.wroteOne (.block .plain header body suffix) =
      ((st.write (·.openBlock (st.render header))).wrote body).closeBlock suffix := by
  rw [wroteOne, putOne_block]
  rfl

@[simp] theorem wroteOne_braces (body : List Code) : st.wroteOne (.braces body) =
    ((st.write (·.line "\x7b")).indent.wrote body).closeBlock "" := by
  rw [wroteOne, putOne_braces]
  rfl

@[simp] theorem wroteOne_indented (body : List Code) :
    st.wroteOne (.indented body) = (st.indent.wrote body).dedent := by
  rw [wroteOne, putOne_indented]
  rfl

/-- A switch is counted at the innermost loop while it is open. -/
@[simp] theorem wroteOne_switch (header : Fragment) (body : List Code) :
    st.wroteOne (.block .switch header body "") =
      ((((st.write (·.openBlock (st.render header))).onInnermost
        fun loop => { loop with switchDepth := loop.switchDepth + 1 }).wrote body).onInnermost
          fun loop => { loop with switchDepth := loop.switchDepth - 1 }).closeBlock "" := by
  rw [wroteOne, putOne_block]
  obtain ⟨out, nesting, _ | ⟨loop, loops⟩, slips⟩ := st <;> rfl

/-- A loop has a frame of its own, so its body marks nothing outside. -/
@[simp] theorem wroteOne_loop (number : Nat) (header : Fragment) (body : List Code) :
    st.wroteOne (.block (.loop (some number)) header body "") =
      ((st.write (·.openBlock (st.render header))).put body).closeBlock "" := by
  rw [wroteOne_of_stays rfl, putOne_block]

/-- A function has no loop around it, so its body marks nothing outside. -/
@[simp] theorem wroteOne_function (header : Fragment) (body : List Code) :
    st.wroteOne (.block .function header body "") =
      ((st.write (·.openBlock (st.render header))).put body).closeBlock "" := by
  rw [wroteOne_of_stays rfl, putOne_block]

/-- An exit label is a line. -/
@[simp] theorem wroteOne_exitLabel (number : Nat) :
    st.wroteOne (.exitLabel number) = st.write (·.line (Code.exitText number)) :=
  wroteOne_of_stays rfl

/-- The way out of a loop that the generator is told is the one that the emitter finds. -/
theorem wroteOne_leave : st.wroteOne (.jump (CSharp.leaveLoop (OpenLoop.innermost st.loops))) =
    st.breakLoop := by
  obtain ⟨out, nesting, _ | ⟨⟨number, depth, used⟩, loops⟩, slips⟩ := st
  · rfl
  · cases depth with
    | zero => exact wroteOne_of_stays rfl
    | succ depth =>
      have htext : Jump.text (.leaveLoop number) =
          "goto " ++ OpenLoop.label ⟨number, depth + 1, used⟩ ++ ";" := by
        unfold Jump.text OpenLoop.label
        rw [← String.append_assoc]
        rfl
      have hmark : (used || true) = true := Bool.or_true used
      simp only [OpenLoop.innermost, OpenLoop.frame, List.head?_cons, Option.map_some,
        CSharp.leaveLoop, Nat.zero_lt_succ, decide_true, if_true, wroteOne, Code.leavesHere,
        putOne_jump, mark, onInnermost, write, hmark, breakLoop, htext]

/-- Marking the open loop does not change which loop it is. -/
@[simp] theorem innermost_mark :
    OpenLoop.innermost (st.mark used).loops = OpenLoop.innermost st.loops := by
  obtain ⟨out, nesting, _ | ⟨loop, loops⟩, slips⟩ := st <;> rfl

/-- Written code leaves the layout as it was, marks or not. -/
@[simp] theorem layout_wrote (code : List Code) : (st.wrote code).out.layout = st.out.layout :=
  layout_put code

/-- Written code leaves the level as it was, marks or not. -/
@[simp] theorem level_wrote (code : List Code) : (st.wrote code).out.level = st.out.level :=
  level_put code

/-- Written code leaves the same loop innermost. -/
@[simp] theorem innermost_wrote (code : List Code) :
    OpenLoop.innermost (st.wrote code).loops = OpenLoop.innermost st.loops :=
  innermost_mark

/-- Outside of all loops there is nothing to mark. -/
theorem wrote_of_no_loops (h : st.loops = []) (code : List Code) : st.wrote code = st.put code := by
  obtain ⟨out, nesting, loops, slips⟩ := st
  obtain rfl := h
  rfl

end Emitter

namespace CSharp

open Emit (Follows Renders)
open Fragment (text)

variable {loop : Option LoopFrame} {ps : List Path} {a b n : Nat} {header : Fragment}
  {code : List Code} {st : Emitter}

/-! ### What a search for a number finds -/

/-- A `break` that has become a jump by number has the number of the loop. -/
theorem anyLeaves_leaveLoop : Code.anyLeaves n [.jump (leaveLoop loop)] =
    (Code.anyLeavesHere [.jump (leaveLoop loop)] && loop.any (·.number == n)) := by
  rcases loop with _ | ⟨number, _ | _⟩ <;>
    simp [leaveLoop, Code.anyLeaves, Code.leaves, Code.leavesHere]

/-- A loop leaves no loop around it: its exits go to its own label. -/
theorem anyLeavesHere_loopCode (number : Nat) (header : Fragment) (body : List Code) :
    Code.anyLeavesHere (loopCode number header body) = false := by
  unfold loopCode
  split <;> rfl

/-- The jumps in a block that jumps pass through, or in a switch, are those of its body. -/
theorem anyLeavesHere_block {role : BlockRole} (hrole : role = .plain ∨ role = .switch)
    (header : Fragment) (body : List Code) :
    Code.anyLeavesHere [.block role header body ""] = Code.anyLeavesHere body := by
  obtain rfl | rfl := hrole <;> simp [Code.leavesHere]

theorem anyLeavesHere_braces (body : List Code) :
    Code.anyLeavesHere [.braces body] = Code.anyLeavesHere body := by
  simp [Code.leavesHere]

theorem anyLeavesHere_indented (body : List Code) :
    Code.anyLeavesHere [.indented body] = Code.anyLeavesHere body := by
  simp [Code.leavesHere]

theorem anyLeaves_braces (n : Nat) (body : List Code) :
    Code.anyLeaves n [.braces body] = Code.anyLeaves n body := by
  simp [Code.anyLeaves, Code.leaves]

theorem anyLeaves_indented (n : Nat) (body : List Code) :
    Code.anyLeaves n [.indented body] = Code.anyLeaves n body := by
  simp [Code.anyLeaves, Code.leaves]

/-- A number outside of a range is different from every number inside. -/
theorem beq_of_outside {a b m n : Nat} (hn : ¬ (a ≤ n ∧ n < b)) (ha : a ≤ m) (hb : m + 1 ≤ b) :
    (m == n) = false :=
  beq_eq_false_iff_ne.mpr (by omega)

/-- A number that is not among those of the loops in the code is found where the code jumps behind
the loop around it. -/
theorem Written.anyLeaves_eq {loop : Option LoopFrame} {ps : List Path} {a b : Nat}
    {code : List Code} : Written loop ps a b code → ∀ n, ¬ (a ≤ n ∧ n < b) →
      Code.anyLeaves n code = (Code.anyLeavesHere code && loop.any (·.number == n))
  | .nil, _, _ => rfl
  | .append h h', n, hn => by
    rw [Code.anyLeaves_append, Code.anyLeavesHere_append,
      h.anyLeaves_eq n (outside_left hn h'.le), h'.anyLeaves_eq n (outside_right hn h.le),
      Bool.and_or_distrib_right]
  | .leave, _, _ => anyLeaves_leaveLoop
  | .line _, _, _ | .nextRound, _, _ | .endCase, _, _ | .separator, _, _ | .verbatim _, _, _ => rfl
  | .plain hheader h, n, hn => by
    rw [anyLeaves_block rfl, anyLeavesHere_block (.inl rfl),
      h.anyLeaves_eq n (outside_right hn hheader.le)]
  | .switch hheader h, n, hn => by
    -- Inside a switch the loop around it keeps its number.
    rw [anyLeaves_block rfl, anyLeavesHere_block (.inr rfl),
      h.anyLeaves_eq n (outside_right hn hheader.le), Option.any_map]
    rfl
  | @Written.loop _ _ m _ _ _ _ hheader h, n, hn => by
    -- A loop has a number of its own, so no jump in it goes behind another loop.
    rw [anyLeaves_loopCode, h.anyLeaves_eq n (outside_right hn (Nat.le_succ_of_le hheader.le)),
      Option.any_some, beq_of_outside hn hheader.le h.le, Bool.and_false, anyLeavesHere_loopCode,
      Bool.false_and]
  | .function _ _, _, _ => rfl
  | .braces h, n, hn => by
    rw [anyLeaves_braces, anyLeavesHere_braces, h.anyLeaves_eq n hn]
  | .indented h, n, hn => by
    rw [anyLeaves_indented, anyLeavesHere_indented, h.anyLeaves_eq n hn]

/-- Outside of all loops there is no loop to jump behind. -/
theorem Written.stays {loop : Option LoopFrame} {ps : List Path} {a b : Nat} {code : List Code} :
    Written loop ps a b code → loop = none → Code.anyLeavesHere code = false
  | .nil, _ | .line _, _ | .nextRound, _ | .endCase, _ | .separator, _ | .verbatim _, _ => rfl
  | .append h h', hloop => by
    rw [Code.anyLeavesHere_append, h.stays hloop, h'.stays hloop, Bool.or_false]
  | .leave, hloop => by
    subst hloop
    rfl
  | .plain _ h, hloop => by
    rw [anyLeavesHere_block (.inl rfl), h.stays hloop]
  | .braces h, hloop => by
    rw [anyLeavesHere_braces, h.stays hloop]
  | .indented h, hloop => by
    rw [anyLeavesHere_indented, h.stays hloop]
  | .switch _ h, hloop => by
    rw [anyLeavesHere_block (.inr rfl), h.stays (by rw [hloop, Option.map_none])]
  | .loop _ _, _ => anyLeavesHere_loopCode _ _ _
  | .function _ _, _ => rfl

/-! ### States in a loop -/

/-- The state of an emitter of C# inside the given loop. -/
structure Fits (loop : Option LoopFrame) (st : Emitter) : Prop where
  braces_eq : st.out.layout.braces = .nextLine
  innermost_eq : OpenLoop.innermost st.loops = loop

/-- In every state in this loop the emitter writes what the generator yields. -/
def Adds (loop : Option LoopFrame) (x : Emit Unit) (y : Gen (List Code)) : Prop :=
  ∀ ⦃st : Emitter⦄, Fits loop st → Follows st x y fun code => ((), st.wrote code)

namespace Fits

/-- Outside of every loop no frame is open. -/
theorem loops_eq (h : Fits none st) : st.loops = [] := by
  simpa [OpenLoop.innermost] using h.innermost_eq

theorem openBlock (h : Fits loop st) (s : String) : Fits loop (st.write (·.openBlock s)) :=
  ⟨by simpa using h.braces_eq, h.innermost_eq⟩

theorem openBraces (h : Fits loop st) : Fits loop (st.write (·.line "\x7b")).indent :=
  ⟨h.braces_eq, h.innermost_eq⟩

/-- A closed block leaves the same loop innermost. -/
theorem closeBlock (h : Fits loop st) (s : String) : Fits loop (st.closeBlock s) :=
  ⟨h.braces_eq, h.innermost_eq⟩

theorem wrote (h : Fits loop st) (code : List Code) : Fits loop (st.wrote code) :=
  ⟨by simpa using h.braces_eq, by simpa using h.innermost_eq⟩

theorem write (h : Fits loop st) {f : Buffer → Buffer}
    (hf : (f st.out).layout = st.out.layout) : Fits loop (st.write f) :=
  ⟨(congrArg LayoutStyle.braces hf).trans h.braces_eq, h.innermost_eq⟩

theorem indent (h : Fits loop st) : Fits loop st.indent :=
  ⟨h.braces_eq, h.innermost_eq⟩

theorem dedent (h : Fits loop st) : Fits loop st.dedent :=
  ⟨h.braces_eq, h.innermost_eq⟩

/-- Code is written to the side outside of all loops. -/
theorem aside (h : Fits loop st) : Fits none { st.aside with loops := [] } :=
  ⟨h.braces_eq, rfl⟩

/-- A new loop is the innermost one, and no switch is open in it. -/
theorem pushLoop (h : Fits loop st) (number : Nat) :
    Fits (some ⟨number, false⟩) (st.pushLoop { number }) :=
  ⟨h.braces_eq, rfl⟩

/-- A switch is open in the innermost loop. -/
theorem enterSwitch (h : Fits loop st) : Fits (loop.map LoopFrame.enterSwitch)
    (st.onInnermost fun loop => { loop with switchDepth := loop.switchDepth + 1 }) := by
  obtain ⟨out, nesting, _ | ⟨inner, loops⟩, slips⟩ := st
  · obtain rfl : none = loop := h.innermost_eq
    exact ⟨h.braces_eq, rfl⟩
  · obtain rfl : some inner.frame = loop := h.innermost_eq
    exact ⟨h.braces_eq, by simp [OpenLoop.innermost, Emitter.onInnermost, OpenLoop.frame,
      LoopFrame.enterSwitch]⟩

end Fits

/-- What is written outside of all loops may be written to the side, for use in a line. -/
theorem renders_emitClosure {x : Emit Unit} {y : Gen (List Code)} (hx : Adds none x y) :
    Renders .nextLine (fun st code => st.render [.nested .closure code]) (emitClosure x) y := by
  intro st hst
  have hfits : Fits (OpenLoop.innermost st.loops) st := ⟨hst, rfl⟩
  have hinner : Follows { st.aside with loops := [] } x y
      fun code => ((), ({ st.aside with loops := [] } : Emitter).put code) :=
    hx hfits.aside
  refine hinner.withoutLoops.capture.finish fun code => ?_
  dsimp only
  rw [Emitter.render_nested]
  rfl

/-- A body that is called at once is captured, and the emitter is as before. -/
theorem renders_emitInvoked {x : Emit Unit} {y : Gen (List Code)} (hx : Adds none x y) :
    Renders .nextLine Emitter.render (emitInvoked x)
      (Gen.requireImport systemNamespace >>= fun _ => y >>= fun code => pure (invoked code)) :=
  fun st hst => .lift fun _ => .bind (renders_emitClosure hx st hst) fun code =>
    .pure (by simp only [CSharp.invoked, Emitter.render_append, Emitter.render_text])

/-- Code that does not jump behind the loop around it may be written in any loop. -/
theorem adds_of_stays {x : Emit Unit} {y : Gen (List Code)}
    (hx : ∀ st : Emitter, st.out.style = .nextLine → Follows st x y fun code => ((), st.put code))
    (hy : y.Always fun code => Code.anyLeavesHere code = false) : Adds loop x y := fun st hst =>
  (hx st hst.braces_eq).of_always hy fun code hcode => by
    rw [Emitter.wrote, hcode, Emitter.mark_false]

/-- A raw block is written as in the tree, and marks no loop. -/
theorem adds_rawCode (raw : RawBlock) :
    Adds loop (target.emitRaw raw) (target.rawCode raw) := by
  refine adds_of_stays (fun _ _ => target.follows_rawCode raw) <|
    Gen.Ensures.always fun n => (target.ensures_rawCode raw n).mono ?_
  rintro m code ⟨-, rfl | rfl⟩ <;> rfl

/-- A function in a body is written outside of all loops. -/
theorem adds_withoutLoops {x : Emit Unit} {y : Gen (List Code)} (hx : Adds none x y)
    (hy : ∀ n, y.Ensures n (Written none ps n)) : Adds loop (Emit.withoutLoops x) y := by
  refine adds_of_stays (fun st hst => ?_) <|
    Gen.Ensures.always fun n => (hy n).mono fun _ _ hcode => hcode.stays rfl
  have hinner : Follows { st with loops := [] } x y
      fun code => ((), ({ st with loops := [] } : Emitter).put code) :=
    hx ⟨hst, rfl⟩
  exact hinner.withoutLoops

/-- A loop is written with its label exactly if the code of its body jumps there. -/
theorem follows_emitLoop {body : Emit Unit} {y : Nat → Gen (List Code)} {shown : String}
    (hbody : ∀ n, Adds (some ⟨n, false⟩) body (y n))
    (hcode : ∀ n, (y n).Ensures (n + 1) (Written (some ⟨n, false⟩) ps (n + 1)))
    (hst : Fits loop st) (hheader : shown = st.render header) :
    Follows st (emitLoop shown body)
      (Gen.freshLabel >>= fun n => y n >>= fun code => pure (loopCode n header code))
      fun code => ((), st.wrote code) := by
  have hlabel : ∀ n m code, Written (some ⟨n, false⟩) ps (n + 1) m code →
      loopCode n header code = .block (.loop (some n)) header code "" ::
        if Code.anyLeavesHere code then [.exitLabel n] else [] := by
    intro n m code h
    have hsearch := h.anyLeaves_eq n (by omega)
    rw [loopCode, hsearch]
    simp
  rw [Gen.freshLabel_bind_congr hcode hlabel]
  refine .lift fun n => .step <| .step <|
    .bind (hbody n ((hst.pushLoop n).openBlock shown)) fun code => .step <| .take ?_
  -- The innermost loop is the one that was opened, marked if its body jumps behind it.
  change Follows _ (Emit.lineUnless (!(false || Code.anyLeavesHere code))
    ("loop_exit_" ++ toString n ++ ": ;")) _ _
  refine .done ?_
  rw [hheader, Bool.false_or, Emitter.wrote_cons, Emitter.wroteOne_loop]
  cases Code.anyLeavesHere code with
  | false =>
    rw [if_neg Bool.false_ne_true, Emitter.wrote_nil]
    rfl
  | true =>
    rw [if_pos rfl, Emitter.wrote_cons, Emitter.wroteOne_exitLabel, Emitter.wrote_nil]
    rfl

/-- A switch is written between two changes of the innermost loop. -/
theorem adds_emitSwitch {subject : Emit String} {cases : Emit Unit} {y : Gen Fragment}
    {z : Gen (List Code)} (hsubject : Renders .nextLine Emitter.render subject y)
    (hcases : Adds (loop.map LoopFrame.enterSwitch) cases z) :
    Adds loop (emitSwitch subject cases)
      (y >>= fun f => z >>= fun code =>
        pure [.block .switch (text "switch (" ++ f ++ text ")") code ""]) := by
  intro st hst
  refine .bind (hsubject st hst.braces_eq) fun f => .step <| .step <|
    .bind (hcases (hst.openBlock _).enterSwitch) fun code => .step <| .done ?_
  simp [String.append_assoc]

end CSharp

end SourceGen
