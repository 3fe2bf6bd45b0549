import SourceGen.CSharp.Body
import SourceGen.Proofs.Drops
import SourceGen.Proofs.Mirrored
import SourceGen.Proofs.ThinCode

/-!
# C# bodies without some marked declarations

Marked declarations in bodies add nothing but a report and a separator. So without some of them a
body is written in the same way, up to separators, and it requires the same imports and uses the
same labels.

## Main results

* `CSharp.mirrored_expr`: expressions without some declarations in the blocks inside them.
* `CSharp.mirrored_stmts`: statements without some declarations.
* `CSharp.mirrored_function`: functions without some declarations in their bodies.
* `CSharp.idle_function`: a marked function.
-/

namespace SourceGen

namespace CSharp

open Fragment (text)
open Gen (Blind Idle Mirrored)

variable {env : Env} {scope : Scope} {fns : Bool}

/-! ### Types -/

mutual

theorem blind_mapNormal : ∀ type : TypeRef, Blind (mapNormal env scope type)
  | ⟨name, args⟩ => by
    rw [mapNormal]
    split
    · exact .pure rfl
    · exact .pure rfl
    · refine .same (blind_mapNormalAll args) fun _ => ?_
      split
      · exact .same (.requireImport _) fun _ => .pure rfl
      · exact .pure rfl
    · exact (blind_mapNormalAll args).mapEq _
    · exact (blind_mapNormalAll args).mapEq _
    · split
      · exact (blind_mapNormalAll args).mapEq _
      · exact .same (.report _ _) fun _ => .pure rfl

theorem blind_mapNormalAll : ∀ types : List TypeRef, Blind (mapNormalAll env scope types)
  | [] => .pure rfl
  | t :: ts => .same (blind_mapNormal t) fun _ => (blind_mapNormalAll ts).mapEq _

end

/-- The spelling of a type reports nothing that the dropped declarations change. -/
theorem blind_mapType (type : TypeRef) : Blind (mapType env scope type) :=
  blind_mapNormal type.normalize

theorem blind_mapTypeOr (fallback : String) (type : Option TypeRef) :
    Blind (mapTypeOr env scope fallback type) := by
  cases type with
  | none => exact .pure rfl
  | some type => exact blind_mapType type

theorem blind_mapTypes (types : List TypeRef) : Blind (mapTypes env scope types) :=
  .mapM blind_mapType types

/-! ### Parts of expressions -/

/-- Operands alike are put in parentheses alike. -/
theorem same_grouped {e e' : Expr} {f f' : Fragment} (he : e.Drops fns e')
    (hf : Fragment.Same fns f f') : Fragment.Same fns (grouped e f) (grouped e' f') := by
  have hparens : needsParens e = needsParens e' := he.congr fun e => by cases e <;> rfl
  unfold grouped
  rw [hparens]
  split
  · simp [hf]
  · exact hf

/-- A builtin is called alike on arguments alike. -/
theorem mirrored_builtinOrShim (fn : Builtin) (argCount : Nat) {args args' : Fragment}
    (h : Fragment.Same fns args args') :
    Mirrored (Fragment.Same fns) (builtinOrShim env fn argCount args)
      (builtinOrShim env fn argCount args') := by
  unfold builtinOrShim
  split
  · exact .pure (by simp [h])
  · refine .same (.requireImport _) fun _ => ?_
    cases fn with
    | print =>
      dsimp only
      split
      · exact .pure (by simp [h])
      · exact .pure (by simp [h])
    | len => exact .same (.requireImport _) fun _ => .pure (by simp [h])
    | str | abs | min | max | sqrt => exact .pure (by simp [h])

/-- An array literal is written alike from items alike. -/
theorem mirrored_arrayLiteral (isEmpty : Bool) {items items' : Fragment}
    (h : Fragment.Same fns items items') (elementType : Option TypeRef) :
    Mirrored (Fragment.Same fns) (arrayLiteral env scope isEmpty items elementType)
      (arrayLiteral env scope isEmpty items' elementType) := by
  unfold arrayLiteral
  have hblank : items.isBlank = items'.isBlank := h.allChars _
  have hbody : Fragment.Same fns
      (if items.isBlank then text "\x7b \x7d" else text "\x7b " ++ items ++ text " \x7d")
      (if items'.isBlank then text "\x7b \x7d" else text "\x7b " ++ items' ++ text " \x7d") := by
    rw [hblank]
    split
    · rfl
    · simp [h]
  cases elementType with
  | none => exact .pure (by simpa using hbody)
  | some type => exact .same (blind_mapType type) fun _ => .pure (by simpa using hbody)

theorem blind_lambdaHead (params : List Parameter) : Blind (lambdaHead env scope params) := by
  unfold lambdaHead
  split
  · refine .same (.mapM (fun p => ?_) params) fun _ => .pure rfl
    exact .same (blind_mapTypeOr untyped p.type) fun _ => .pure rfl
  · split
    · exact .pure rfl
    · exact .pure rfl

/-- The parameters of a lambda are written without their default values. -/
theorem mirrored_lambdaHead {params params' : List Parameter}
    (h : Parameter.DropsAll fns params params') :
    Mirrored Eq (lambdaHead env scope params) (lambdaHead env scope params') := by
  have hbare : ∀ params : List Parameter, lambdaHead env scope params =
      lambdaHead env scope (params.map fun p => ⟨p.name, p.type, none⟩) := fun params => by
    unfold lambdaHead
    simp only [List.any_map, List.mapM_map, List.map_map]
    rcases params with _ | ⟨p, _ | ⟨q, ps⟩⟩ <;> rfl
  rw [hbare params, h.bare, ← hbare params']
  exact blind_lambdaHead params'

/-! ### Ranges -/

section Range

variable {a a' b b' : Option Expr} {inclusive : Bool}

/-- The folded count of a range does not depend on the dropped declarations. -/
theorem foldedCount?_eq (ha : Expr.DropsOption fns a a') (hb : Expr.DropsOption fns b b') :
    foldedCount? ⟨a, b, inclusive⟩ = foldedCount? ⟨a', b', inclusive⟩ := by
  have hcount : Range.count? ⟨a, b, inclusive⟩ = Range.count? ⟨a', b', inclusive⟩ := by
    simp only [Range.count?, ha.startValue? b b' inclusive]
    cases b with
    | none =>
      obtain rfl := hb
      rfl
    | some e =>
      obtain ⟨e', rfl, he⟩ := hb
      simp only [Option.bind_eq_bind, Option.bind_some, he.integer?]
  rw [foldedCount?, foldedCount?, hcount]

/-- The count writes the bounds only if they are not both literals. -/
theorem mirrored_rangeCount {start start' stop stop' : Gen (Option Fragment)}
    (ha : Expr.DropsOption fns a a') (hb : Expr.DropsOption fns b b')
    (hstart : Mirrored (Fragment.SameOption fns) start start')
    (hstop : Mirrored (Fragment.SameOption fns) stop stop') :
    Mirrored (Fragment.Same fns) (rangeCount ⟨a, b, inclusive⟩ start stop)
      (rangeCount ⟨a', b', inclusive⟩ start' stop') := by
  have hfinish : ∀ {f f' : Fragment}, Fragment.Same fns f f' → Fragment.Same fns
      (if inclusive && b.isSome then f ++ text " + 1" else f)
      (if inclusive && b'.isSome then f' ++ text " + 1" else f') := by
    intro f f' h
    rw [hb.isSome]
    split
    · simp [h]
    · exact h
  have hreport : ∀ {x y : Gen Fragment}, Mirrored (Fragment.Same fns) x y →
      Mirrored (Fragment.Same fns)
        (do
          if Range.hasLiteralBounds ⟨a, b, inclusive⟩ then
            Gen.report rangeTooLong
          x)
        (do
          if Range.hasLiteralBounds ⟨a', b', inclusive⟩ then
            Gen.report rangeTooLong
          y) := by
    intro x y h
    rw [ha.hasLiteralBounds hb]
    split
    · exact .same (.report _ _) fun _ => h
    · exact h
  unfold rangeCount
  rw [foldedCount?_eq ha hb]
  split
  · exact .pure rfl
  · refine hreport ?_
    extract_lets +lift finish finish'
    have hplain : ∀ {f f' : Fragment}, Fragment.Same fns f f' →
        Mirrored (Fragment.Same fns) (finish f) (finish' f') :=
      fun h => .pure (hfinish h)
    cases a with
    | none =>
      obtain rfl := ha
      cases b with
      | none =>
        obtain rfl := hb
        exact hplain rfl
      | some e =>
        obtain ⟨e', rfl, he⟩ := hb
        exact .bind hstop fun o o' ho => hplain (same_grouped he (by simp [ho]))
    | some first =>
      obtain ⟨first', rfl, hfirst⟩ := ha
      -- The first bound is left out if it is zero.
      have hdifference : ∀ {last last' : Fragment}, Fragment.Same fns last last' →
          Mirrored (Fragment.Same fns)
            (if first.integer? == some 0 then finish last
              else do finish (last ++ text " - " ++ grouped first ((← start).getD [])))
            (if first'.integer? == some 0 then finish' last'
              else do finish' (last' ++ text " - " ++ grouped first' ((← start').getD []))) := by
        intro last last' hlast
        rw [hfirst.integer?]
        split
        · exact hplain hlast
        · refine .bind hstart fun o o' ho => hplain ?_
          have hgetD : Fragment.Same fns (o.getD []) (o'.getD []) := by simp [ho]
          have hgrouped := same_grouped hfirst hgetD
          simp [hlast, hgrouped]
      cases b with
      | none =>
        obtain rfl := hb
        exact hdifference rfl
      | some e =>
        obtain ⟨e', rfl, he⟩ := hb
        exact .bind hstop fun o o' ho => hdifference (same_grouped he (by simp [ho]))

/-- A range is written alike from ends alike. -/
theorem mirrored_indexSequence {start start' stop stop' : Gen (Option Fragment)}
    (ha : Expr.DropsOption fns a a') (hb : Expr.DropsOption fns b b')
    (hstart : Mirrored (Fragment.SameOption fns) start start')
    (hstop : Mirrored (Fragment.SameOption fns) stop stop') :
    Mirrored (Fragment.Same fns) (indexSequence ⟨a, b, inclusive⟩ start stop)
      (indexSequence ⟨a', b', inclusive⟩ start' stop') := by
  refine .same (.requireImport _) fun _ => .bind hstart fun o o' ho => ?_
  refine (mirrored_rangeCount ha hb hstart hstop).map fun f f' hf => ?_
  simp [ho, hf]

end Range

/-! ### Parts of statements and declarations -/

/-- An expression statement is written alike. -/
theorem same_effectLine {e e' : Expr} {f f' : Fragment} (he : e.Drops fns e')
    (hf : Fragment.Same fns f f') : Code.Same fns [effectLine e f] [effectLine e' f'] := by
  unfold effectLine
  rw [he.isEffect]
  split
  · simp [hf]
  · simp [hf]

theorem same_variableText (mutability : Mutability) (name : String) (type : Option String)
    {o o' : Option Fragment} (h : Fragment.SameOption fns o o') :
    Fragment.Same fns (variableText mutability name type o)
      (variableText mutability name type o') := by
  cases o with
  | none =>
    obtain rfl : o' = none := by simpa using h.symm
    rfl
  | some f =>
    obtain ⟨f', rfl, hf⟩ : ∃ f', o' = some f' ∧ Piece.thinAll fns f' = Piece.thinAll fns f := by
      simpa using h.symm
    cases type <;> simp [variableText, hf]

/-- A loop is written alike, with its exit label exactly where the body leaves it. -/
theorem same_loopCode (number : Nat) {f f' : Fragment} {body body' : List Code}
    (hf : Fragment.Same fns f f') (hbody : Code.Same fns body body') :
    Code.Same fns (loopCode number f body) (loopCode number f' body') := by
  unfold loopCode
  rw [hbody.anyLeaves number]
  split
  · simp [hf, hbody]
  · simp [hf, hbody]

theorem thinAll_caseLines (fs : List Fragment) :
    Code.thinAll fns (fs.map fun f => .line (text "case " ++ f ++ text ":")) =
      (fs.map (Piece.thinAll fns)).map fun f => .line (text "case " ++ f ++ text ":") := by
  induction fs with
  | nil => simp
  | cons f fs ih =>
    rw [List.map_cons, Code.thinAll, ih]
    simp

/-- Whether a case declares a variable does not depend on the dropped declarations. -/
theorem any_declaresVariable {ss ts : List Stmt} (h : Stmt.DropsAll fns ss ts) :
    ss.any declaresVariable = ts.any declaresVariable := by
  induction ss generalizing ts with
  | nil =>
    obtain rfl := h
    rfl
  | cons s ss ih =>
    obtain ⟨hs, h⟩ | ⟨_, _, rfl, hs, h⟩ := h
    · have hno : declaresVariable s = false := by
        cases s with
        | functionDecl | fieldDecl | propertyDecl => rfl
        | _ => cases hs
      rw [List.any_cons, hno, Bool.false_or]
      exact ih h
    · rw [List.any_cons, List.any_cons, ih h,
        hs.congr (f := declaresVariable) fun s => by cases s <;> rfl]

/-- A case that ends with the same jump is closed alike. -/
theorem same_caseBlock {ss ts : List Stmt} {code code' : List Code} (hs : Stmt.DropsAll fns ss ts)
    (hjump : Stmt.SameJump ss ts) (hcode : Code.Same fns code code') :
    Code.Same fns (caseBlock ss code) (caseBlock ts code') := by
  unfold caseBlock
  rw [hjump.2, any_declaresVariable hs]
  split <;> split <;> simp [hcode]

theorem blind_whereClauses (generics : List GenericParam) :
    Blind (whereClauses env scope generics) := by
  induction generics with
  | nil => exact .pure rfl
  | cons g gs ih =>
    rw [whereClauses]
    split
    · exact ih
    · exact .same (blind_mapTypes _) fun _ => ih.mapEq _

/-- A missing return type is inferred alike from bodies alike. -/
theorem mirrored_returnSpelling (declared : Option TypeRef) {body body' : Option (List Stmt)}
    (h : Stmt.DropsBody fns body body') :
    Mirrored Eq (returnSpelling env scope declared body)
      (returnSpelling env scope declared body') := by
  unfold returnSpelling
  rw [h.any_returnsValue]
  cases declared with
  | none => exact .pure rfl
  | some type => exact blind_mapType type

/-! ### Marked functions -/

/-- Nothing is written for a marked function. -/
theorem idle_function {options : FunctionOptions} {prologue : Scope → Gen (List Code)}
    {f : Function} (h : f.marker.isSome = true) :
    Idle (· = []) (function env scope options prologue f) := by
  obtain ⟨_, _, _, _, _, _, _, _, _⟩ := f
  rw [function]
  exact target.idle_unlessMarked h rfl

/-- A dropped declaration leaves a separator at most. -/
theorem idle_stmt {loop : Option LoopFrame} {s : Stmt} (h : s.droppable fns = true) :
    Idle (fun code => Code.thinAll fns code = []) (stmt env scope loop s) := by
  cases s with
  | functionDecl kind f =>
    obtain ⟨rfl, hmarker⟩ := Bool.and_eq_true_iff.mp h
    refine (idle_function hmarker).map fun code hcode => ?_
    rw [hcode]
    rfl
  | fieldDecl | propertyDecl =>
    exact (target.idle_refuseInBody scope _).mono fun code hcode => by simp [hcode]
  | _ => cases h

/-! ### The induction over the tree -/

/-- All but the last statement of a value block are plain statements. -/
theorem valueBlock_cons (s s' : Stmt) (ss : List Stmt) :
    valueBlock env scope (s :: s' :: ss) = do
      return (← stmt env scope none s) ++ (← valueBlock env scope (s' :: ss)) := by
  cases s <;> rfl

/-- A value block that ends in neither a value nor a jump returns `null`. -/
theorem valueBlock_single {s : Stmt} (h : Stmt.ending [s] = .other) :
    valueBlock env scope [s] = do
      return (← stmt env scope none s) ++ [.text "return null;"] := by
  cases s with
  | expr | ret => cases h
  | _ => rfl

/-- What is not a lone `if` is an ordinary branch. -/
theorem elseChain_block {loop : Option LoopFrame} {ss : List Stmt}
    (h : Stmt.isLoneIf ss = false) :
    elseChain env scope loop (some ss) = do
      return [.block .plain (text "else") (← stmts env scope loop ss) ""] := by
  rcases ss with _ | ⟨s, _ | ⟨s', ss⟩⟩
  · rfl
  · cases s with
    | ifThen => cases h
    | _ => rfl
  · cases s <;> rfl

mutual

/-- An expression is written alike without the dropped declarations, by induction on its syntax. -/
theorem mirrored_expr (scope : Scope) : ∀ {e e' : Expr}, e.Drops fns e' →
    Mirrored (Fragment.Same fns) (expr env scope e) (expr env scope e')
  | .literal _ | .ident _ | .path _ | .this => by
    rintro rfl
    exact .pure rfl
  | .member _ _ => by
    rintro ⟨_, rfl, h⟩
    exact (mirrored_expr scope h).map fun _ _ hf => by simp [same_grouped h hf]
  | .index _ _ => by
    rintro ⟨_, _, rfl, h, hi⟩
    refine .bind (mirrored_expr scope h) fun _ _ hf => (mirrored_expr scope hi).map fun _ _ hg => ?_
    simp [same_grouped h hf, hg]
  | .binary _ _ _ => by
    rintro ⟨_, _, rfl, hl, hr⟩
    refine .bind (mirrored_expr scope hl) fun _ _ hf => ?_
    refine .bind (mirrored_expr scope hr) fun _ _ hg => ?_
    split
    · exact .same (.requireImport _) fun _ =>
        .pure (by simp [same_grouped hl hf, same_grouped hr hg])
    · exact .pure (by simp [same_grouped hl hf, same_grouped hr hg])
  | .unary _ _ trailing => by
    rintro ⟨_, rfl, h⟩
    refine (mirrored_expr scope h).map fun _ _ hf => ?_
    split <;> simp [same_grouped h hf]
  | .assign _ _ _ => by
    rintro ⟨_, _, rfl, hl, hr⟩
    refine .bind (mirrored_expr scope hl) fun _ _ hf => ?_
    refine (mirrored_expr scope hr).map fun _ _ hg => ?_
    simp [hf, hg]
  | .call callee args => by
    rintro ⟨callee', args', rfl, h, hargs⟩
    have hargs' := mirrored_exprs scope hargs
    have hlength := hargs.length
    have hcallee := mirrored_expr scope h
    -- The arguments are written first, then whatever is called.
    have hother : Mirrored (Fragment.Same fns)
        (do
          let rendered := Fragment.join ", " (← exprs env scope args)
          return grouped callee (← expr env scope callee) ++ text "(" ++ rendered ++ text ")")
        (do
          let rendered := Fragment.join ", " (← exprs env scope args')
          return grouped callee' (← expr env scope callee') ++ text "(" ++ rendered ++ text ")") :=
      .bind hargs' fun _ _ hfs => hcallee.map fun _ _ hf => by simp [hfs, same_grouped h hf]
    cases callee with
    | ident name =>
      obtain rfl := h
      refine .bind hargs' fun _ _ hfs => ?_
      dsimp only
      split
      · rw [hlength]
        exact mirrored_builtinOrShim _ _ (by simp [hfs])
      · exact .pure (by simp [hfs])
    | path parts =>
      obtain rfl := h
      exact hargs'.map fun _ _ hfs => by simp [hfs]
    | member receiver name =>
      obtain ⟨receiver', rfl, h⟩ := h
      refine .bind hargs' fun _ _ hfs => (mirrored_expr scope h).map fun _ _ hf => ?_
      simp [hfs, same_grouped h hf]
    | literal | this =>
      obtain rfl := h
      exact hother
    | unary | construct | array | block =>
      obtain ⟨_, rfl, _⟩ := h
      exact hother
    | index | binary | assign | call | lambda | range | matchOn =>
      obtain ⟨_, _, rfl, _⟩ := h
      exact hother
  | .construct type _ => by
    rintro ⟨_, rfl, h⟩
    refine .same (blind_mapType type) fun _ => (mirrored_exprs scope h).map fun _ _ hfs => ?_
    simp [hfs]
  | .array _ elementType => by
    rintro ⟨_, rfl, h⟩
    refine .bind (mirrored_exprs scope h) fun _ _ hfs => ?_
    rw [h.isEmpty]
    exact mirrored_arrayLiteral _ (by simp [hfs]) elementType
  | .lambda _ (.expr _) => by
    rintro ⟨_, _, rfl, hparams, _, rfl, h⟩
    refine .same (mirrored_lambdaHead hparams) fun _ => ?_
    exact (mirrored_expr scope h).map fun _ _ hf => by simp [hf]
  | .lambda _ (.block _) => by
    rintro ⟨_, _, rfl, hparams, _, rfl, h⟩
    refine .same (mirrored_lambdaHead hparams) fun _ => ?_
    exact (mirrored_stmts scope none h).map fun _ _ hcode => by simp [hcode]
  | .range _ _ _ => by
    rintro ⟨_, _, rfl, ha, hb⟩
    exact mirrored_indexSequence ha hb (mirrored_exprOption scope ha) (mirrored_exprOption scope hb)
  | .block _ => by
    rintro ⟨_, rfl, hend, h⟩
    refine .same (.requireImport _) fun _ => (mirrored_valueBlock scope h hend).map fun _ _ hc => ?_
    simp [invoked, hc]
  | .matchOn _ _ => by
    rintro ⟨_, _, rfl, h, harms⟩
    refine .bind (mirrored_expr scope h) fun _ _ hf => ?_
    refine (mirrored_switchArms scope harms).map fun _ _ hfs => ?_
    simp [same_grouped h hf, Piece.thinArms_eq_map, hfs]
termination_by structural e => e

theorem mirrored_exprs (scope : Scope) : ∀ {es es' : List Expr}, Expr.DropsAll fns es es' →
    Mirrored (Fragment.SameAll fns) (exprs env scope es) (exprs env scope es')
  | [] => by
    rintro rfl
    exact .pure rfl
  | _ :: _ => by
    rintro ⟨_, _, rfl, h, hs⟩
    refine .bind (mirrored_expr scope h) fun _ _ hf => ?_
    refine (mirrored_exprs scope hs).map fun _ _ hfs => ?_
    simp [hf, hfs]
termination_by structural es => es

theorem mirrored_exprOption (scope : Scope) : ∀ {o o' : Option Expr}, Expr.DropsOption fns o o' →
    Mirrored (Fragment.SameOption fns) (exprOption env scope o) (exprOption env scope o')
  | none => by
    rintro rfl
    exact .pure rfl
  | some _ => by
    rintro ⟨_, rfl, h⟩
    exact (mirrored_expr scope h).map fun _ _ hf => by simp [hf]
termination_by structural o => o

/-- A value block is written alike when it ends alike. -/
theorem mirrored_valueBlock (scope : Scope) : ∀ {ss ts : List Stmt}, Stmt.DropsAll fns ss ts →
    Stmt.ending ss = Stmt.ending ts →
    Mirrored (Code.Same fns) (valueBlock env scope ss) (valueBlock env scope ts)
  | [] => by
    rintro rfl -
    exact .pure rfl
  | [s] => by
    rintro (⟨hs, rfl⟩ | ⟨t, _, rfl, hs, rfl⟩) -
    · have hidle : Idle _ (stmt env scope none s) := idle_stmt hs
      cases s with
      | functionDecl | fieldDecl | propertyDecl =>
        exact .idle hidle fun _ hc => .pure (by simp [hc, Stmt.isReturn])
      | _ => cases hs
    · have hstmt := mirrored_stmt scope none hs
      have hreturn := hs.congr (f := Stmt.isReturn) fun s => by cases s <;> rfl
      have hother : Mirrored (Code.Same fns)
          (do
            let code ← stmt env scope none s
            return if s.isReturn then code else code ++ [.text "return null;"])
          (do
            let code ← stmt env scope none t
            return if t.isReturn then code else code ++ [.text "return null;"]) := by
        refine hstmt.map fun _ _ hc => ?_
        rw [hreturn]
        split <;> simp [hc]
      cases s with
      | expr value =>
        obtain ⟨_, rfl, h⟩ := hs
        exact (mirrored_expr scope h).map fun _ _ hf => by simp [hf]
      | importDecl | aliasDecl | breakLoop | continueLoop | raw =>
        obtain rfl := hs
        exact hother
      | includeDecl | namespaceDecl | typeDecl | enumDecl | moduleDecl | functionDecl | fieldDecl
      | propertyDecl | binding | ret =>
        obtain ⟨_, rfl, _⟩ := hs
        exact hother
      | whileLoop | forEach | matchOn | switchOn =>
        obtain ⟨_, _, rfl, _⟩ := hs
        exact hother
      | ifThen =>
        obtain ⟨_, _, _, rfl, _⟩ := hs
        exact hother
      | forLoop =>
        obtain ⟨_, _, _, _, rfl, _⟩ := hs
        exact hother
  | s :: s' :: ss => by
    rintro (⟨hs, h⟩ | ⟨t, us, rfl, hs, h⟩) hend
    · rw [valueBlock_cons]
      exact .idle (idle_stmt hs) fun _ hc =>
        (mirrored_valueBlock scope h hend).mapLeft fun _ _ hd => by simp [hc, hd]
    · have hstmt := mirrored_stmt scope none hs
      rw [valueBlock_cons]
      cases us with
      | cons u us =>
        rw [valueBlock_cons]
        refine .bind hstmt fun _ _ hc => ?_
        exact (mirrored_valueBlock scope h hend).map fun _ _ hd => by simp [hc, hd]
      | nil =>
        -- Nothing is left behind the statement, so it is no value and no return.
        have hother : Stmt.ending [t] = .other := hend.symm.trans h.ending_of_nil
        have hrest : Idle _ (valueBlock env scope (s' :: ss)) :=
          (mirrored_valueBlock scope h h.ending_of_nil).idle_of_pure
        rw [valueBlock_single hother]
        exact .bind hstmt fun _ _ hc => .idle hrest fun _ hd => .pure (by simp [hc, hd])
termination_by structural ss => ss

theorem mirrored_switchArms (scope : Scope) : ∀ {arms arms' : List MatchArm},
    MatchArm.DropsAll fns arms arms' →
    Mirrored (Fragment.SameAll fns) (switchArms env scope arms) (switchArms env scope arms')
  | [] => by
    rintro rfl
    exact .pure rfl
  | ⟨_, .expr _⟩ :: _ => by
    rintro ⟨_, _, _, rfl, hp, h, harms⟩
    refine .bind (mirrored_armSelector scope hp) fun _ _ hsel => ?_
    refine .bind (mirrored_expr scope h) fun _ _ hf => ?_
    exact (mirrored_switchArms scope harms).map fun _ _ hfs => by simp [hsel, hf, hfs]
  | ⟨_, .block _⟩ :: _ => by
    rintro ⟨_, _, _, rfl, hp, hjump, h, harms⟩
    refine .bind (mirrored_armSelector scope hp) fun _ _ hsel => ?_
    refine .same (.requireImport _) fun _ => ?_
    refine .bind (mirrored_stmts scope none h) fun _ _ hcode => ?_
    refine (mirrored_switchArms scope harms).map fun _ _ hfs => ?_
    rw [hjump.1]
    split <;> simp [invoked, hsel, hcode, hfs]
termination_by structural arms => arms

theorem mirrored_armSelector (scope : Scope) : ∀ {p p' : Pattern}, p.Drops fns p' →
    Mirrored (Fragment.Same fns) (armSelector env scope p) (armSelector env scope p')
  | .default => by
    rintro rfl
    exact .pure rfl
  | .values _ => by
    rintro ⟨_, rfl, h⟩
    exact (mirrored_exprs scope h).map fun _ _ hfs => by simp [hfs]
termination_by structural p => p

/-- A kept statement is written alike without the dropped declarations inside it. -/
theorem mirrored_stmt (scope : Scope) (loop : Option LoopFrame) : ∀ {s t : Stmt},
    s.Drops fns t → Mirrored (Code.Same fns) (stmt env scope loop s) (stmt env scope loop t)
  | .binding _ => by
    rintro ⟨_, rfl, h⟩
    exact (mirrored_binding scope h).map fun _ _ hf => by simp [hf]
  | .ifThen _ _ _ => by
    rintro ⟨_, _, _, rfl, he, hs, ho⟩
    refine .bind (mirrored_expr scope he) fun _ _ hf => ?_
    refine .bind (mirrored_stmts scope loop hs) fun _ _ hc => ?_
    exact (mirrored_elseChain scope loop ho).map fun _ _ hd => by simp [hf, hc, hd]
  | .whileLoop _ _ => by
    rintro ⟨_, _, rfl, he, hs⟩
    refine .bind (mirrored_expr scope he) fun _ _ hf => .same .freshLabel fun number => ?_
    exact (mirrored_stmts scope _ hs).map fun _ _ hc => same_loopCode number (by simp [hf]) hc
  | .forLoop _ _ _ _ => by
    rintro ⟨_, _, _, _, rfl, hstart, he, hstep, hs⟩
    refine .bind (mirrored_forClause scope hstart) fun _ _ hf => ?_
    refine .bind (mirrored_exprOption scope he) fun _ _ ho => ?_
    refine .bind (mirrored_exprOption scope hstep) fun _ _ hu => .same .freshLabel fun number => ?_
    refine (mirrored_stmts scope _ hs).map fun _ _ hc => same_loopCode number ?_ hc
    simp [hf, ho, hu]
  | .forEach name type iterable body => by
    rintro ⟨iterable', body', rfl, he, hs⟩
    -- The header depends on what is iterated, the rest of the loop does not.
    have hloop : ∀ {header header' : Fragment}, Fragment.Same fns header header' →
        Mirrored (Code.Same fns)
          (do
            let number ← Gen.freshLabel
            return loopCode number header (← stmts env scope (some ⟨number, false⟩) body))
          (do
            let number ← Gen.freshLabel
            return loopCode number header' (← stmts env scope (some ⟨number, false⟩) body')) :=
      fun hheader => .same .freshLabel fun number =>
        (mirrored_stmts scope _ hs).map fun _ _ hc => same_loopCode number hheader hc
    have hsequence := mirrored_expr scope he
    have hother : Mirrored (Code.Same fns)
        (do
          let spelling ← mapTypeOr env scope "var" type
          let sequence ← expr env scope iterable
          let header := text ("foreach (" ++ spelling ++ " " ++ ident name ++ " in ") ++ sequence ++
            text ")"
          let number ← Gen.freshLabel
          return loopCode number header (← stmts env scope (some ⟨number, false⟩) body))
        (do
          let spelling ← mapTypeOr env scope "var" type
          let sequence ← expr env scope iterable'
          let header := text ("foreach (" ++ spelling ++ " " ++ ident name ++ " in ") ++ sequence ++
            text ")"
          let number ← Gen.freshLabel
          return loopCode number header (← stmts env scope (some ⟨number, false⟩) body')) :=
      .same (blind_mapTypeOr "var" type) fun _ => .bind hsequence fun _ _ hf =>
        hloop (by simp [hf])
    cases iterable with
    | range start stop inclusive =>
      obtain ⟨start', stop', rfl, ha, hb⟩ := he
      have hstart := mirrored_exprOption scope ha
      have hstop := mirrored_exprOption scope hb
      refine .same (blind_mapTypeOr _ type) fun _ => ?_
      cases stop with
      | none =>
        obtain rfl := hb
        exact .bind hstart fun _ _ ho => hloop (by simp [ho])
      | some stop =>
        obtain ⟨stop', rfl, h⟩ := hb
        exact .bind (mirrored_indexSequence ha ⟨stop', rfl, h⟩ hstart hstop) fun _ _ hf =>
          hloop (by simp [hf])
    | literal | ident | path | this =>
      obtain rfl := he
      exact hother
    | member | unary | construct | array | block =>
      obtain ⟨_, rfl, _⟩ := he
      exact hother
    | index | binary | assign | call | lambda | matchOn =>
      obtain ⟨_, _, rfl, _⟩ := he
      exact hother
  | .ret none => by
    rintro ⟨_, rfl, rfl⟩
    exact .pure rfl
  | .ret (some _) => by
    rintro ⟨_, rfl, _, rfl, h⟩
    exact (mirrored_expr scope h).map fun _ _ hf => by simp [hf]
  | .breakLoop | .continueLoop => by
    rintro rfl
    exact .pure rfl
  | .matchOn _ _ => by
    rintro ⟨_, _, rfl, he, harms⟩
    refine .bind (mirrored_expr scope he) fun _ _ hf => ?_
    exact (mirrored_matchCases scope _ harms).map fun _ _ hc => by simp [hf, hc]
  | .switchOn _ _ => by
    rintro ⟨_, _, rfl, he, hcases⟩
    refine .bind (mirrored_expr scope he) fun _ _ hf => ?_
    exact (mirrored_switchCases scope _ hcases).map fun _ _ hc => by simp [hf, hc]
  | .expr value => by
    rintro ⟨value', rfl, h⟩
    have hvalue := mirrored_expr scope h
    have hother : Mirrored (Code.Same fns)
        (do return [effectLine value (← expr env scope value)])
        (do return [effectLine value' (← expr env scope value')]) :=
      hvalue.map fun _ _ hf => same_effectLine h hf
    cases value with
    | matchOn scrutinee arms =>
      obtain ⟨_, _, rfl, he, harms⟩ := h
      refine .bind (mirrored_expr scope he) fun _ _ hf => ?_
      exact (mirrored_matchCases scope _ harms).map fun _ _ hc => by simp [hf, hc]
    | literal | ident | path | this =>
      obtain rfl := h
      exact hother
    | member | unary | construct | array | block =>
      obtain ⟨_, rfl, _⟩ := h
      exact hother
    | index | binary | assign | call | lambda | range =>
      obtain ⟨_, _, rfl, _⟩ := h
      exact hother
  | .raw block => by
    rintro rfl
    exact (target.blind_rawCode block).mono fun _ _ h => congrArg _ h
  | .functionDecl _ _ => by
    rintro ⟨_, rfl, h⟩
    exact (mirrored_function scope _ (fun _ => .pure rfl) h).map fun _ _ hc => by simp [hc]
  | .typeDecl _ _ | .enumDecl _ => by
    rintro ⟨_, rfl, _⟩
    exact .fail _
  | .importDecl _ | .aliasDecl _ => by
    rintro rfl
    exact .same (.report _ _) fun _ => .pure rfl
  | .includeDecl _ _ | .namespaceDecl _ _ | .moduleDecl _ | .fieldDecl _ | .propertyDecl _ => by
    rintro ⟨_, rfl, _⟩
    exact .same (.report _ _) fun _ => .pure rfl
termination_by structural s => s

/-- A block is written alike without its dropped declarations. -/
theorem mirrored_stmts (scope : Scope) (loop : Option LoopFrame) : ∀ {ss ts : List Stmt},
    Stmt.DropsAll fns ss ts →
    Mirrored (Code.Same fns) (stmts env scope loop ss) (stmts env scope loop ts)
  | [] => by
    rintro rfl
    exact .pure rfl
  | _ :: _ => by
    rintro (⟨hs, h⟩ | ⟨_, _, rfl, hs, h⟩)
    · exact .idle (idle_stmt hs) fun _ hc =>
        (mirrored_stmts scope loop h).mapLeft fun _ _ hd => by simp [hc, hd]
    · refine .bind (mirrored_stmt scope loop hs) fun _ _ hc => ?_
      exact (mirrored_stmts scope loop h).map fun _ _ hd => by simp [hc, hd]
termination_by structural ss => ss

theorem mirrored_binding (scope : Scope) : ∀ {b b' : Binding}, b.Drops fns b' →
    Mirrored (Fragment.Same fns) (binding env scope b) (binding env scope b')
  | ⟨_, type, _, _⟩ => by
    rintro ⟨_, rfl, h⟩
    refine .bind (mirrored_exprOption scope h) fun _ _ ho => ?_
    exact .same (.optionMapM blind_mapType type) fun _ => .pure (same_variableText _ _ _ ho)
termination_by structural b => b

theorem mirrored_forClause (scope : Scope) : ∀ {o o' : Option Stmt}, Stmt.DropsStart fns o o' →
    Mirrored (Fragment.Same fns) (forClause env scope o) (forClause env scope o')
  | none => by
    rintro rfl
    exact .pure rfl
  | some s => by
    rintro ⟨t, rfl, h⟩
    have hother : Mirrored (Fragment.Same fns)
        (do Gen.report (.noLoopStart s); return []) (do Gen.report (.noLoopStart t); return []) :=
      .same (.report _ _) fun _ => .pure rfl
    cases s with
    | binding b =>
      obtain ⟨_, rfl, h⟩ := h
      exact mirrored_binding scope h
    | expr value =>
      obtain ⟨_, rfl, h⟩ := h
      exact mirrored_expr scope h
    | importDecl | aliasDecl | breakLoop | continueLoop | raw =>
      obtain rfl := h
      exact hother
    | includeDecl | namespaceDecl | typeDecl | enumDecl | moduleDecl | functionDecl | fieldDecl
    | propertyDecl | ret =>
      obtain ⟨_, rfl, _⟩ := h
      exact hother
    | whileLoop | forEach | matchOn | switchOn =>
      obtain ⟨_, _, rfl, _⟩ := h
      exact hother
    | ifThen =>
      obtain ⟨_, _, _, rfl, _⟩ := h
      exact hother
    | forLoop =>
      obtain ⟨_, _, _, _, rfl, _⟩ := h
      exact hother
termination_by structural o => o

/-- The branches behind an `if` are written alike. -/
theorem mirrored_elseChain (scope : Scope) (loop : Option LoopFrame) :
    ∀ {o o' : Option (List Stmt)}, Stmt.DropsElse fns o o' →
    Mirrored (Code.Same fns) (elseChain env scope loop o) (elseChain env scope loop o')
  | none => by
    rintro rfl
    exact .pure rfl
  | some ss => by
    rintro ⟨ts, rfl, hif, h⟩
    have hblock := mirrored_stmts scope loop h
    cases hlone : Stmt.isLoneIf ss with
    | false =>
      rw [elseChain_block hlone, elseChain_block (hif.symm.trans hlone)]
      exact hblock.map fun _ _ hc => by simp [hc]
    | true =>
      rcases ss with _ | ⟨s, _ | ⟨s', ss⟩⟩
      · cases hlone
      · cases s with
        | ifThen condition thenBranch elseBranch =>
          obtain ⟨hs, -⟩ | ⟨_, _, rfl, ⟨_, _, _, rfl, he, hs, ho⟩, rfl⟩ := h
          · cases hs
          · refine .bind (mirrored_expr scope he) fun _ _ hf => ?_
            refine .bind (mirrored_stmts scope loop hs) fun _ _ hc => ?_
            exact (mirrored_elseChain scope loop ho).map fun _ _ hd => by simp [hf, hc, hd]
        | _ => cases hlone
      · cases s <;> cases hlone
termination_by structural o => o

theorem mirrored_caseLabels (scope : Scope) : ∀ {p p' : Pattern}, p.Drops fns p' →
    Mirrored (Code.Same fns) (caseLabels env scope p) (caseLabels env scope p')
  | .default => by
    rintro rfl
    exact .pure rfl
  | .values _ => by
    rintro ⟨_, rfl, h⟩
    exact (mirrored_exprs scope h).map fun _ _ hfs => by
      rw [Code.Same, thinAll_caseLines, thinAll_caseLines, hfs]
termination_by structural p => p

/-- The arms of a match statement are written alike. -/
theorem mirrored_matchCases (scope : Scope) (loop : Option LoopFrame) :
    ∀ {arms arms' : List MatchArm}, MatchArm.DropsAll fns arms arms' →
    Mirrored (Code.Same fns) (matchCases env scope loop arms) (matchCases env scope loop arms')
  | [] => by
    rintro rfl
    exact .pure rfl
  | ⟨_, .expr _⟩ :: _ => by
    rintro ⟨_, _, _, rfl, hp, h, harms⟩
    refine .bind (mirrored_caseLabels scope hp) fun _ _ hlabels => ?_
    refine .bind (mirrored_expr scope h) fun _ _ hf => ?_
    have hline := same_effectLine h hf
    refine (mirrored_matchCases scope loop harms).map fun _ _ hc => ?_
    simp only [Code.Same, Code.thinAll_append, Code.thinAll, Code.thin, hlabels, hc]
    simp only [Code.Same, Code.thinAll, List.append_nil] at hline
    rw [hline]
  | ⟨_, .block _⟩ :: _ => by
    rintro ⟨_, _, _, rfl, hp, hjump, h, harms⟩
    refine .bind (mirrored_caseLabels scope hp) fun _ _ hlabels => ?_
    refine .bind (mirrored_stmts scope loop h) fun _ _ hcode => ?_
    have hblock := same_caseBlock h hjump hcode
    exact (mirrored_matchCases scope loop harms).map fun _ _ hc => by simp [hlabels, hblock, hc]
termination_by structural arms => arms

/-- The cases of a switch are written alike. -/
theorem mirrored_switchCases (scope : Scope) (loop : Option LoopFrame) :
    ∀ {cases cases' : List SwitchCase}, SwitchCase.DropsAll fns cases cases' →
    Mirrored (Code.Same fns) (switchCases env scope loop cases) (switchCases env scope loop cases')
  | [] => by
    rintro rfl
    exact .pure rfl
  | ⟨_, _⟩ :: _ => by
    rintro ⟨_, _, _, rfl, hp, hjump, h, hcases⟩
    refine .bind (mirrored_caseLabels scope hp) fun _ _ hlabels => ?_
    refine .bind (mirrored_stmts scope loop h) fun _ _ hcode => ?_
    have hblock := same_caseBlock h hjump hcode
    exact (mirrored_switchCases scope loop hcases).map fun _ _ hc => by simp [hlabels, hblock, hc]
termination_by structural cases => cases

/-- Attributes are written alike. -/
theorem mirrored_attributeLines (scope : Scope) : ∀ {as as' : List Attribute},
    Attribute.DropsAll fns as as' →
    Mirrored (Code.Same fns) (attributeLines env scope as) (attributeLines env scope as')
  | [] => by
    rintro rfl
    exact .pure rfl
  | ⟨_, _⟩ :: _ => by
    rintro ⟨_, _, rfl, h, has⟩
    rw [attributeLines, attributeLines]
    split
    · exact mirrored_attributeLines scope has
    · refine .bind (mirrored_exprs scope h) fun _ _ hfs => ?_
      refine (mirrored_attributeLines scope has).map fun _ _ hc => ?_
      rw [h.isEmpty]
      split <;> simp [hfs, hc]
termination_by structural as => as

/-- Parameters are written alike. -/
theorem mirrored_parameters (scope : Scope) : ∀ {ps ps' : List Parameter},
    Parameter.DropsAll fns ps ps' →
    Mirrored (Fragment.SameAll fns) (parameters env scope ps) (parameters env scope ps')
  | [] => by
    rintro rfl
    exact .pure rfl
  | ⟨_, type, _⟩ :: _ => by
    rintro ⟨_, _, rfl, h, hs⟩
    refine .same (blind_mapTypeOr _ type) fun _ => ?_
    refine .bind (mirrored_exprOption scope h) fun _ _ ho => ?_
    exact (mirrored_parameters scope hs).map fun _ _ hfs => by simp [ho, hfs]
termination_by structural ps => ps

/-- A function is written alike behind prologues alike. -/
theorem mirrored_function (scope : Scope) (options : FunctionOptions)
    {prologue prologue' : Scope → Gen (List Code)}
    (hprologue : ∀ scope, Mirrored (Code.Same fns) (prologue scope) (prologue' scope)) :
    ∀ {f f' : Function}, f.Drops fns f' →
    Mirrored (Code.Same fns) (function env scope options prologue f)
      (function env scope options prologue' f')
  | ⟨name, _, returnType, generics, modifiers, _, body, isConstructor, isStatic⟩ => by
    rintro ⟨_, _, body', rfl, hparams, has, hbody, -⟩
    refine target.mirrored_unlessMarked has.marker rfl ?_
    split
    · exact .same (.report _ _) fun _ => .pure rfl
    extract_lets makeStatic inner words
    refine .bind (mirrored_attributeLines inner has) fun _ _ hlines => ?_
    refine .bind (mirrored_parameters inner hparams) fun _ _ hshown => ?_
    -- The kinds of functions differ in what they look up for their heads.
    extract_lets +lift shown finish named shown' finish' named'
    have hparens : Fragment.Same fns shown shown' := by simp [shown, shown', hshown]
    have hfinish : ∀ {head head' : Fragment}, Fragment.Same fns head head' →
        Mirrored (Code.Same fns) (finish head) (finish' head') :=
      fun hhead => (mirrored_functionBody _ hprologue hhead hbody).map fun _ _ hc => by
        simp [hlines, hc]
    have hnamed : ∀ returns : String,
        Mirrored (Code.Same fns) (named returns) (named' returns) :=
      fun _ => .same (blind_whereClauses generics) fun _ => hfinish (by simp [hparens])
    split
    · exact hfinish (by simp [hparens])
    · split
      · exact hnamed _
      · exact .same (mirrored_returnSpelling returnType hbody) hnamed
termination_by structural f => f

/-- A body is written alike behind prologues alike. -/
theorem mirrored_functionBody (scope : Scope) {prologue prologue' : Scope → Gen (List Code)}
    (hprologue : ∀ scope, Mirrored (Code.Same fns) (prologue scope) (prologue' scope))
    {head head' : Fragment} (hhead : Fragment.Same fns head head') :
    ∀ {body body' : Option (List Stmt)}, Stmt.DropsBody fns body body' →
    Mirrored (Code.Same fns) (functionBody env scope prologue head body)
      (functionBody env scope prologue' head' body')
  | none => by
    rintro rfl
    exact .pure (by simp [hhead])
  | some _ => by
    rintro ⟨_, rfl, h⟩
    refine .bind (hprologue scope) fun _ _ hc => ?_
    exact (mirrored_stmts scope none h).map fun _ _ hd => by simp [hhead, hc, hd]
termination_by structural body => body

end

end CSharp

end SourceGen
