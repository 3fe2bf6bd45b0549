import SourceGen.CSharp.Emit.Unit
import SourceGen.Proofs.CSharp.DeclarationEmission

/-!
# Emitted C# units

The emitter of a whole C# unit follows the generator, so both yield the same unit.

## Main results

* `CSharp.emitUnit_eq`: the emitted unit is the generated one.
-/

namespace SourceGen

namespace CSharp

open Emit (Follows)
open Fragment (text)

variable {env : Env} {st : Emitter}

theorem follows_implicitFunctions {loose : List Stmt} {entrySeen : Bool} :
    ∀ (fs : List Function) {st : Emitter}, Fits none st →
      Follows st (emitImplicitFunctions env loose entrySeen fs)
        (implicitFunctions env loose entrySeen fs) fun r => (r.2, st.wrote r.1) := by
  intro fs
  induction fs generalizing entrySeen with
  | nil => exact fun _ => .pure (by simp)
  | cons f fs ih =>
    intro st hst
    have hf := hst.write st.out.layout_separator
    rw [emitImplicitFunctions, implicitFunctions]
    refine .step ?_
    split
    · extract_lets +lift returnsValue options next next'
      have hnext : ∀ u, Follows (st.write Buffer.separator) (next u) (next' u)
          fun r => (r.2, st.wrote r.1) := by
        intro u
        refine .bind (adds_function _ (fun scope => adds_stmts none loose) f hf) fun code => ?_
        refine .bind (ih (hf.wrote code)) fun r => .pure ?_
        simp
      split
      · exact .lift hnext
      · exact hnext ()
    · refine .bind (adds_function _ (fun _ _ _ => .pure (by simp)) f hf) fun code => ?_
      refine .last (ih (hf.wrote code)) fun r => ?_
      simp

theorem adds_looseEntry (loose : List Stmt) :
    Adds none (emitLooseEntry env loose) (looseEntry env loose) := by
  intro st hst
  have hentry := hst.write st.out.layout_separator
  refine .step <| .step <| .bind (adds_stmts none loose (hentry.openBlock _)) fun code =>
    .done ?_
  simp [hentry.wroteOne_function]

theorem follows_implicitContainer (sections : Sections) (hst : Fits none st) :
    Follows st (emitImplicitContainer env sections) (implicitContainer env sections)
      fun r => (r.2, st.wrote r.1) := by
  unfold emitImplicitContainer implicitContainer
  refine .step <| .step ?_
  dsimp -zeta only
  extract_lets synthesized name rest config synthesized' name' rest'
  let opened := (st.write (·.openBlock ("namespace " ++ env.config.implicitNamespace))).write
    (·.openBlock ("public class " ++ env.config.implicitClass))
  have hopened : Fits none opened := (hst.openBlock _).openBlock _
  have hrest : ∀ helpers, Follows (opened.wrote helpers) (rest ()) (rest' helpers)
      fun r => (r.2, st.wrote r.1) := by
    intro helpers
    have hhelpers := hopened.wrote helpers
    refine .bind (adds_members sections.members hhelpers) fun fields => ?_
    refine .bind (follows_implicitFunctions sections.functions (hhelpers.wrote fields))
      fun ⟨functions, written⟩ => ?_
    dsimp only
    split
    · refine .bind (adds_looseEntry sections.loose ((hhelpers.wrote fields).wrote functions))
        fun entry => .step <| .step <| .pure ?_
      simp [opened, config, synthesized, synthesized', name, name']
    · refine .step <| .step <| .pure ?_
      simp [opened, config, synthesized, synthesized', name, name']
  split
  · exact .lift fun _ => .step <| by simpa using hrest [.verbatim shims]
  · simpa using hrest []

theorem follows_unitCode (stmts : List Stmt) (sections : Sections) (hst : Fits none st) :
    Follows st (emitUnitCode env stmts sections) (unitCode env stmts sections)
      fun r => (r.2, st.wrote r.1) := by
  unfold emitUnitCode unitCode
  refine .bind (target.follows_separatedRawCodes sections.raw st) fun raws => ?_
  rw [← Emitter.wrote_of_no_loops hst.loops_eq]
  have hraws := hst.wrote raws
  refine .bind (adds_separated sections.containers hraws) fun containers => ?_
  have hcontainers := hraws.wrote containers
  extract_lets finish finish'
  have hfinish : ∀ implicit entry, Follows (((st.wrote raws).wrote containers).wrote implicit)
      (finish entry) (finish' (implicit, entry)) fun r => (r.2, st.wrote r.1) := by
    intro implicit entry
    dsimp only [finish, finish']
    split
    · exact .lift fun _ => .pure (by simp)
    · exact .pure (by simp)
  split
  · refine .step <| .bind (follows_implicitContainer sections
      (hcontainers.write (Buffer.layout_separator _))) fun ⟨code, entry⟩ => ?_
    simpa using hfinish (.separator :: code) entry
  · simpa using hfinish [] none

/-- The emitted unit is the generated one. -/
theorem emitUnit_eq : emitUnit = generate := by
  funext config resolver program
  have hunit (env : Env) (stmts : List Stmt) (sections : Sections) :
      emitUnitCode env stmts sections { out := (layoutStyle config).buffer 0 } = _ :=
    follows_unitCode stmts sections ⟨rfl, rfl⟩
  have hbody (style : LayoutStyle) (code : List Code) :
      (({ out := style.buffer 0 } : Emitter).wrote code).out.finish = Code.render style code := by
    rw [Emitter.wrote_of_no_loops rfl, Emitter.finish_put]
  unfold emitUnit generate
  extract_lets stmts env sections finish finish'
  have hfinish : finish = finish' := by
    funext u
    dsimp only [finish, finish']
    rw [hunit, bind_map_left]
    exact bind_congr fun r => by rw [hbody]
  cases Stmt.findNestedType? stmts with
  | some nested => exact congrArg (Gen.fail (.nestedType nested.1 nested.2) >>= ·) hfinish
  | none => exact congrFun hfinish ()

end CSharp

end SourceGen
