import SourceGen.Proofs.Rust.ItemEmission
import SourceGen.Rust.Emit.Unit

/-!
# Emitted Rust units

The emitter of a whole Rust unit follows the generator, so both yield the same unit.

## Main results

* `Rust.emitUnit_eq`: the emitted unit is the generated one.
-/

namespace SourceGen

namespace Rust

open Emit (Follows)
open Fragment (text)

variable {env : Env} {st : Emitter}

theorem adds_plainFunctions {entrySeen : Bool} : ∀ fs : List Function,
    Adds (emitPlainFunctions env entrySeen fs) (plainFunctions env entrySeen fs) := by
  intro fs
  induction fs generalizing entrySeen with
  | nil => exact fun _ hst => Adds.nil hst
  | cons f fs ih =>
    intro st hst
    rw [emitPlainFunctions, plainFunctions]
    split
    · exact ih hst
    · exact .step <| .bind (adds_function _ adds_noPrologue f
        (style_eq st.out.layout_separator hst)) fun code =>
        .last (ih (style_eq (by simp) hst)) fun rest => by simp

theorem follows_exitMain :
    Follows st emitExitMain (pure exitMain) fun code => ((), st.put code) :=
  .step <| .step <| .step <| .done (by simp [exitMain])

theorem follows_entry (f : Function) (loose : List Stmt) (hst : st.out.style = .sameLine) :
    Follows st (emitEntry env f loose) (entryCode env f loose) fun r => (r.2, st.put r.1) := by
  unfold emitEntry entryCode
  split
  · exact .bind (adds_function {} adds_noPrologue f hst) fun code => .pure rfl
  extract_lets done next next'
  have hnext : ∀ u, Follows st (next u) (next' u) fun r => (r.2, st.put r.1) := by
    intro u
    refine .lift fun declared => .step <| .bind (adds_function _ (fun _ => adds_stmts loose) f
      (style_eq st.out.layout_separator hst)) fun code => ?_
    have hend : ∀ returnsValue : Bool, Follows ((st.write Buffer.separator).put code)
        (if returnsValue then emitExitMain >>= done else done ())
        (pure (.separator :: code ++ if returnsValue then exitMain else [], true))
        fun r => (r.2, st.put r.1) := by
      rintro (_ | _)
      · exact .pure (by simp)
      · exact .alone follows_exitMain (.pure (by simp))
    exact hend _
  split
  · exact .lift hnext
  · exact hnext ()

theorem adds_looseMain (loose : List Stmt) :
    Adds (emitLooseMain env loose) (looseMain env loose) := by
  intro st hst
  unfold emitLooseMain looseMain
  have hopen : ∀ s, ((st.write Buffer.separator).write (·.openBlock s)).out.style = .sameLine :=
    fun s => style_eq (by simp) hst
  refine .step ?_
  split
  · refine .step <| .bind (adds_stmts loose (hopen _)) fun code => .step ?_
    exact follows_exitMain.pure_congr (by simp)
  · refine .step <| .bind (adds_stmts loose (hopen _)) fun code => .done ?_
    simp

theorem follows_unitCode (sections : Sections) (hst : st.out.style = .sameLine) :
    Follows st (emitUnitCode env sections) (unitCode env sections) fun r => (r.2, st.put r.1) := by
  unfold emitUnitCode unitCode
  extract_lets finish rest rest'
  have hrest : Follows st (rest ()) (rest' ()) fun r => (r.2, st.put r.1) := by
    refine .bind (target.follows_separatedRawCodes sections.raw st) fun raws => ?_
    refine .bind (adds_items sections.containers (style_eq (by simp) hst)) fun containers => ?_
    refine .bind (adds_plainFunctions sections.functions (style_eq (by simp) hst))
      fun functions => ?_
    let last := ((st.put raws).put containers).put functions
    have hlast : last.out.style = .sameLine := style_eq (by simp [last]) hst
    extract_lets finish'
    -- The check for an entry point comes when everything is written.
    have hfinish : ∀ entry hasEntry, Follows (last.put entry) (finish hasEntry)
        (finish' (entry, hasEntry)) fun r => (r.2, st.put r.1) := by
      intro entry hasEntry
      dsimp only [finish, finish']
      split
      · exact .lift fun _ => .pure (by simp [last])
      · exact .pure (by simp [last])
    cases sections.entry? env.config.entryName with
    | some f =>
      exact .bind (follows_entry f sections.loose hlast) fun ⟨entry, hasEntry⟩ =>
        hfinish entry hasEntry
    | none =>
      dsimp only
      split
      · exact hfinish [] false
      · exact .bind (adds_looseMain sections.loose hlast) fun code => hfinish code true
  rcases sections.members with _ | ⟨s, ss⟩
  · exact hrest
  · cases s with
    | fieldDecl decl => exact .lift fun _ => hrest
    | propertyDecl decl => exact .lift fun _ => hrest
    | _ => exact hrest

/-- The emitted unit is the generated one. -/
theorem emitUnit_eq : emitUnit = compose := by
  funext config program
  have hunit (env : Env) (sections : Sections) :
      emitUnitCode env sections { out := (layoutStyle config).buffer 0 } = _ :=
    follows_unitCode sections rfl
  unfold emitUnit compose
  extract_lets stmts env sections finish finish'
  have hfinish : finish = finish' := by
    funext u
    dsimp only [finish, finish']
    rw [hunit, bind_map_left]
    exact bind_congr fun r => by rw [Emitter.finish_put]
  cases Stmt.findNestedType? stmts with
  | some nested => exact congrArg (Gen.fail (.nestedType nested.1 nested.2) >>= ·) hfinish
  | none => exact congrFun hfinish ()

end Rust

end SourceGen
