import SourceGen.Proofs.CSharp.Written

/-!
# C# bodies are written

Everything that the generator writes for expressions, statements and functions belongs to the
grammar of C# bodies. First come the parts that have no statements or expressions of their own to
write, then one induction over the tree.

## Main results

* `CSharp.written_expr`: the fragments of expressions.
* `CSharp.written_stmts`: the code of statements, with the `break`s of the tree.
* `CSharp.written_valueBlock`: the code of a block with a value.
* `CSharp.written_function`: the code of functions.
-/

namespace SourceGen

namespace CSharp

open Fragment (text)

variable {env : Env} {scope : Scope} {a n : Nat} {args : Fragment}

/-! ### Types use no labels -/

mutual

theorem keepsLabels_mapNormal : ∀ type : TypeRef, (mapNormal env scope type).KeepsLabels
  | ⟨name, args⟩ => by
    have hargs := keepsLabels_mapNormalAll args
    unfold mapNormal
    split
    · exact .pure _
    · exact .pure _
    · refine .bind hargs fun mapped => ?_
      split
      · exact .bind (.requireImport _) fun _ => .pure _
      · exact .pure _
    · exact .bind hargs fun _ => .pure _
    · exact .bind hargs fun _ => .pure _
    · split
      · exact .bind hargs fun _ => .pure _
      · exact .bind (.report _) fun _ => .pure _

theorem keepsLabels_mapNormalAll :
    ∀ types : List TypeRef, (mapNormalAll env scope types).KeepsLabels
  | [] => by
    unfold mapNormalAll
    exact .pure _
  | t :: ts => by
    unfold mapNormalAll
    exact .bind (keepsLabels_mapNormal t) fun _ =>
      .bind (keepsLabels_mapNormalAll ts) fun _ => .pure _

end

/-- Mapping a type takes no label number. -/
theorem keepsLabels_mapType (type : TypeRef) : (mapType env scope type).KeepsLabels :=
  keepsLabels_mapNormal type.normalize

theorem keepsLabels_mapTypeOr (fallback : String) (type : Option TypeRef) :
    (mapTypeOr env scope fallback type).KeepsLabels := by
  cases type with
  | none => exact .pure _
  | some type => exact keepsLabels_mapType type

theorem keepsLabels_mapTypes (types : List TypeRef) : (mapTypes env scope types).KeepsLabels :=
  .mapM keepsLabels_mapType types

theorem keepsLabels_lambdaHead (params : List Parameter) :
    (lambdaHead env scope params).KeepsLabels := by
  unfold lambdaHead
  split
  · exact .bind (.mapM (fun p => .bind (keepsLabels_mapTypeOr _ p.type) fun _ => .pure _) params)
      fun _ => .pure _
  · split
    · exact .pure _
    · exact .pure _

theorem keepsLabels_whereClauses : ∀ generics, (whereClauses env scope generics).KeepsLabels
  | [] => .pure _
  | g :: gs => by
    unfold whereClauses
    split
    · exact keepsLabels_whereClauses gs
    · exact .bind (keepsLabels_mapTypes g.constraints) fun _ =>
        .bind (keepsLabels_whereClauses gs) fun _ => .pure _

/-- Spelling a return type takes no label number. -/
theorem keepsLabels_returnSpelling (declared : Option TypeRef) (body : Option (List Stmt)) :
    (returnSpelling env scope declared body).KeepsLabels := by
  unfold returnSpelling
  split
  · exact keepsLabels_mapType _
  · exact .pure _

/-! ### Parts of expressions -/

/-- A call of a builtin puts text around the arguments. -/
theorem written_builtinOrShim {fn : Builtin} {argCount : Nat} (hargs : WrittenFragment a n args) :
    (builtinOrShim env fn argCount args).Ensures n (WrittenFragment a) := by
  have around : ∀ before after : String,
      WrittenFragment a n (text before ++ args ++ text after) :=
    fun before after => (hargs.text_append before).append_text after
  unfold builtinOrShim
  split
  · exact .pure (around _ _)
  · refine .after (.requireImport _) fun _ => ?_
    cases fn with
    | print =>
      dsimp only
      split
      · exact .pure (around _ _)
      · exact .pure (around _ _)
    | len => exact .after (.requireImport _) fun _ => .pure (around _ _)
    | str | abs | min | max | sqrt => exact .pure (around _ _)

/-- An array literal is written from its items. -/
theorem written_arrayLiteral {isEmpty : Bool} {elementType : Option TypeRef}
    (hargs : WrittenFragment a n args) :
    (arrayLiteral env scope isEmpty args elementType).Ensures n (WrittenFragment a) := by
  have hbody : WrittenFragment a n
      (if args.isBlank then text "\x7b \x7d" else text "\x7b " ++ args ++ text " \x7d") := by
    split
    · rename_i hblank
      rw [hargs.eq_of_allChars hblank]
      exact .text _
    · exact (hargs.text_append _).append_text _
  cases elementType with
  | none => exact .pure (hbody.text_append _)
  | some type => exact .after (keepsLabels_mapType type) fun _ => .pure (hbody.text_append _)

/-- A variable puts text in front of its value. -/
theorem written_variableText {mutability : Mutability} {name : String} {type : Option String}
    {value : Option Fragment} (hvalue : WrittenOption a n value) :
    WrittenFragment a n (variableText mutability name type value) := by
  cases value with
  | none =>
    obtain rfl := hvalue
    cases type with
    | none => exact .text _
    | some type => exact .text _
  | some value =>
    cases type with
    | none => exact hvalue.text_append _
    | some type => exact hvalue.text_append _

section Range

variable {r : Range} {start stop : Gen (Option Fragment)}
  (hstart : ∀ n, start.Ensures n (WrittenOption n)) (hstop : ∀ n, stop.Ensures n (WrittenOption n))

include hstart hstop

/-- The number of elements of a range: a number, or the bounds once more. -/
theorem written_rangeCount :
    (rangeCount r start stop).Ensures n (WrittenFragment n) := by
  unfold rangeCount
  split
  · exact .pure (.text _)
  · -- The optional parts of the number are written by continuations, the last one first here.
    extract_lets +lift finish subtract count
    have hfinish : ∀ m f, WrittenFragment n m f → (finish f).Ensures m (WrittenFragment n) := by
      intro m f hf
      refine .pure ?_
      split
      · exact hf.append_text _
      · exact hf
    have hsubtract : ∀ m f, WrittenFragment n m f →
        (subtract f).Ensures m (WrittenFragment n) := by
      intro m f hf
      dsimp only [subtract]
      split
      · rename_i e _
        split
        · exact hfinish m f hf
        · refine .bind (hstart m) fun m' o ho => hfinish m' _ ?_
          exact (hf.append_text _).append ((ho.getD fun _ => .nil).grouped e)
      · exact hfinish m f hf
    have hcount : ∀ u, (count u).Ensures n (WrittenFragment n) := by
      intro u
      dsimp only [count]
      split
      · rename_i e _
        refine .bind (hstop n) fun m o ho => hsubtract m _ ?_
        exact (ho.getD fun _ => .nil).grouped e
      · exact hsubtract n _ (.text _)
    split
    · exact .after (.report _) hcount
    · exact hcount ()

/-- A range is written from its ends. -/
theorem written_indexSequence :
    (indexSequence r start stop).Ensures n (WrittenFragment n) := by
  unfold indexSequence
  refine .after (.requireImport _) fun _ => .bind (hstart n) fun m o ho => ?_
  refine .bind (written_rangeCount hstart hstop) fun m' f hf => .pure ?_
  have hfirst := ho.getD fun _ => WrittenFragment.text "0"
  exact (((hfirst.text_append _).append_text _).append hf).append_text _

end Range

/-! ### The induction over the tree -/

mutual

/-- An expression is written with the loops of its blocks numbered from the next label on. -/
theorem written_expr {scope : Scope} :
    ∀ (e : Expr) (n : Nat), (expr env scope e).Ensures n (WrittenFragment n)
  | .literal _, n => by
    rw [expr]
    exact .pure (.text _)
  | .ident _, n => by
    rw [expr]
    exact .pure (.text _)
  | .path _, n => by
    rw [expr]
    exact .pure (.text _)
  | .member object _, n => by
    rw [expr]
    exact .bind (written_expr object n) fun m f hf => .pure ((hf.grouped object).append_text _)
  | .index object i, n => by
    rw [expr]
    refine .bind (written_expr object n) fun m f hf => .bind (written_expr i m) fun m' g hg => ?_
    exact .pure ((((hf.grouped object).append_text _).append hg).append_text _)
  | .binary left op right, n => by
    rw [expr]
    refine .bind (written_expr left n) fun m f hf => .bind (written_expr right m) fun m' g hg => ?_
    have hl := hf.grouped left
    have hr := hg.grouped right
    split
    · exact .after (.requireImport _) fun _ =>
        .pure ((((hl.text_append _).append_text _).append hr).append_text _)
    · exact .pure ((hl.append_text _).append hr)
  | .unary op operand trailing, n => by
    rw [expr]
    refine .bind (written_expr operand n) fun m f hf => .pure ?_
    split
    · exact (hf.grouped operand).append_text _
    · exact (hf.grouped operand).text_append _
  | .assign target _ value, n => by
    rw [expr]
    refine .bind (written_expr target n) fun m f hf => ?_
    refine .bind (written_expr value m) fun m' g hg => ?_
    exact .pure ((hf.append_text _).append hg)
  | .call callee args, n => by
    have hargs : (exprs env scope args).Ensures n (WrittenFragments n) := written_exprs args n
    have hcallee : ∀ m, (expr env scope callee).Ensures m (WrittenFragment m) :=
      written_expr callee
    cases callee with
    | ident name =>
      rw [expr]
      refine .bind hargs fun m fs hfs => ?_
      split
      · exact written_builtinOrShim (hfs.join _)
      · exact .pure (((hfs.join _).text_append _).append_text _)
    | path parts =>
      rw [expr]
      exact .bind hargs fun m fs hfs => .pure (((hfs.join _).text_append _).append_text _)
    | member receiver name =>
      rw [expr]
      refine .bind hargs fun m fs hfs => .bind (written_expr receiver m) fun m' f hf => .pure ?_
      -- The arguments are written before the receiver in front of them.
      have hhead := (hf.grouped receiver).append_text ("." ++ ident name ++ "(")
      exact ((hfs.join _).prepend hhead).append_text _
    | _ =>
      simp only [expr]
      refine .bind hargs fun m fs hfs => .bind (hcallee m) fun m' f hf => .pure ?_
      exact ((hfs.join _).prepend ((hf.grouped _).append_text _)).append_text _
  | .construct type args, n => by
    rw [expr]
    refine .after (keepsLabels_mapType type) fun _ => ?_
    refine .bind (written_exprs args n) fun m fs hfs => ?_
    exact .pure (((hfs.join _).text_append _).append_text _)
  | .array elements elementType, n => by
    rw [expr]
    exact .bind (written_exprs elements n) fun m fs hfs => written_arrayLiteral (hfs.join _)
  | .lambda params (.expr value), n => by
    rw [expr]
    exact .after (keepsLabels_lambdaHead params) fun _ =>
      .bind (written_expr value n) fun m f hf => .pure (hf.text_append _)
  | .lambda params (.block block), n => by
    rw [expr]
    -- The block is outside of all loops, whatever stands around the lambda.
    refine .after (keepsLabels_lambdaHead params) fun _ => ?_
    refine .bind (written_stmts none block n) fun m cs hcs => .pure ?_
    exact (WrittenFragment.closure hcs).text_append _
  | .range start stop inclusive, n => by
    rw [expr]
    exact written_indexSequence (written_exprOption start) (written_exprOption stop)
  | .block block, n => by
    rw [expr]
    exact .after (.requireImport _) fun _ =>
      .bind (written_valueBlock block n) fun m cs hcs => .pure (.invoked hcs)
  | .matchOn scrutinee arms, n => by
    rw [expr]
    refine .bind (written_expr scrutinee n) fun m f hf => ?_
    refine .bind (written_switchArms arms m) fun m' fs hfs => ?_
    exact .pure (((hf.grouped scrutinee).append_text _).append hfs.arms)
  | .this, n => by
    rw [expr]
    exact .pure (.text _)

theorem written_exprs {scope : Scope} :
    ∀ (es : List Expr) (n : Nat), (exprs env scope es).Ensures n (WrittenFragments n)
  | [], n => by
    rw [exprs]
    exact .pure .nil
  | e :: es, n => by
    rw [exprs]
    exact .bind (written_expr e n) fun m f hf =>
      .bind (written_exprs es m) fun m' fs hfs => .pure (.cons hf hfs)

theorem written_exprOption {scope : Scope} :
    ∀ (e : Option Expr) (n : Nat), (exprOption env scope e).Ensures n (WrittenOption n)
  | none, n => by
    rw [exprOption]
    exact .pure rfl
  | some e, n => by
    rw [exprOption]
    exact .bind (written_expr e n) fun m f hf => .pure hf

/-- The same of a block that is a value; no loop is open inside it. -/
theorem written_valueBlock {scope : Scope} :
    ∀ (block : List Stmt) (n : Nat), (valueBlock env scope block).Ensures n
      (Written none (Stmt.allBreaks (Stmt.beforeValue block)) n)
  | [], n => by
    rw [valueBlock]
    exact .pure (.text _)
  | [s], n => by
    -- Only an expression at the end is the value of the block.
    have hs : (stmt env scope none s).Ensures n (Written none s.breaks n) := written_stmt none s n
    cases s with
    | expr value =>
      rw [valueBlock, Stmt.beforeValue]
      exact .bind (written_expr value n) fun m f hf =>
        .pure (.line ((hf.text_append _).append_text _))
    | _ =>
      simp only [valueBlock, Stmt.beforeValue, Stmt.allBreaks, List.append_nil]
      refine .bind hs fun m cs hcs => .pure ?_
      split
      · exact hcs
      · exact hcs.append_text _
  | s :: s' :: ss, n => by
    simp only [valueBlock, Stmt.beforeValue, Stmt.allBreaks]
    exact .bind (written_stmt none s n) fun m cs hcs =>
      .bind (written_valueBlock (s' :: ss) m) fun m' ds hds => .pure (hcs.append hds)

theorem written_switchArms {scope : Scope} :
    ∀ (arms : List MatchArm) (n : Nat), (switchArms env scope arms).Ensures n (WrittenFragments n)
  | [], n => by
    rw [switchArms]
    exact .pure .nil
  | ⟨pattern, .expr value⟩ :: arms, n => by
    rw [switchArms]
    refine .bind (written_armSelector pattern n) fun m f hf => ?_
    refine .bind (written_expr value m) fun m' g hg => ?_
    exact .bind (written_switchArms arms m') fun m'' fs hfs =>
      .pure (.cons ((hf.append_text _).append hg) hfs)
  | ⟨pattern, .block block⟩ :: arms, n => by
    rw [switchArms]
    refine .bind (written_armSelector pattern n) fun m f hf => .after (.requireImport _) fun _ => ?_
    refine .bind (written_stmts none block m) fun m' cs hcs => ?_
    have hclosed : Written none (Stmt.allBreaks block) m m'
        (if Stmt.endsWithReturn block then cs else cs ++ [.text "return null;"]) := by
      split
      · exact hcs
      · exact hcs.append_text _
    exact .bind (written_switchArms arms m') fun m'' fs hfs =>
      .pure (.cons ((hf.append_text _).append (.invoked hclosed)) hfs)

theorem written_armSelector {scope : Scope} :
    ∀ (pattern : Pattern) (n : Nat), (armSelector env scope pattern).Ensures n (WrittenFragment n)
  | .default, n => by
    rw [armSelector]
    exact .pure (.text _)
  | .values values, n => by
    rw [armSelector]
    exact .bind (written_exprs values n) fun m fs hfs => .pure (hfs.join _)

/-- A block is written with its loops numbered in order and its breaks where the syntax has them. -/
theorem written_stmts {scope : Scope} (loop : Option LoopFrame) :
    ∀ (ss : List Stmt) (n : Nat), (stmts env scope loop ss).Ensures n
      (Written loop (Stmt.allBreaks ss) n)
  | [], n => by
    rw [stmts]
    exact .pure .nil
  | s :: ss, n => by
    rw [stmts, Stmt.allBreaks]
    exact .bind (written_stmt loop s n) fun m cs hcs =>
      .bind (written_stmts loop ss m) fun m' ds hds => .pure (hcs.append hds)

/-- The same of a statement. -/
theorem written_stmt {scope : Scope} (loop : Option LoopFrame) :
    ∀ (s : Stmt) (n : Nat), (stmt env scope loop s).Ensures n (Written loop s.breaks n)
  | .binding b, n => by
    rw [stmt, Stmt.breaks.eq_def]
    exact .bind (written_binding b n) fun m f hf => .pure (.line (hf.append_text _))
  | .ifThen condition thenBranch elseBranch, n => by
    rw [stmt, Stmt.breaks_ifThen]
    refine .bind (written_expr condition n) fun m f hf => ?_
    refine .bind (written_stmts loop thenBranch m) fun m' cs hcs => ?_
    refine .bind (written_elseChain loop elseBranch m') fun m'' ds hds => .pure ?_
    exact (Written.plain ((hf.text_append _).append_text _) hcs).append hds
  | .whileLoop condition body, n => by
    rw [stmt, Stmt.breaks]
    -- The header has used the numbers up to `m`, so the loop gets `m` and its body the later ones.
    refine .bind (written_expr condition n) fun m f hf => .freshLabel ?_
    exact .bind (written_stmts (some ⟨m, false⟩) body (m + 1)) fun m' cs hcs =>
      .pure (.loop ((hf.text_append _).append_text _) hcs)
  | .forLoop start condition step body, n => by
    rw [stmt, Stmt.breaks]
    refine .bind (written_forClause start n) fun m₁ f hf => ?_
    refine .bind (written_exprOption condition m₁) fun m₂ o ho => ?_
    refine .bind (written_exprOption step m₂) fun m₃ o' ho' => .freshLabel ?_
    refine .bind (written_stmts (some ⟨m₃, false⟩) body (m₃ + 1)) fun m' cs hcs => .pure ?_
    have hfirst := (hf.text_append "for (").append_text ";"
    have hclauses := ((hfirst.append (ho.elim " ")).append_text ";").append (ho'.elim " ")
    exact .loop (hclauses.append_text ")") hcs
  | .forEach name type iterable body, n => by
    have hiterable : (expr env scope iterable).Ensures n (WrittenFragment n) :=
      written_expr iterable n
    have hbody : ∀ m, (stmts env scope (some ⟨m, false⟩) body).Ensures (m + 1)
        (Written (some ⟨m, false⟩) (Stmt.allBreaks body) (m + 1)) :=
      fun m => written_stmts (some ⟨m, false⟩) body (m + 1)
    cases iterable with
    | range start stop inclusive =>
      rw [stmt, Stmt.breaks]
      refine .after (keepsLabels_mapTypeOr _ type) fun spelling => ?_
      -- A range without an end counts up in a `for`, any other one is a sequence.
      extract_lets +lift finish
      have hfinish : ∀ m header, WrittenFragment n m header → (finish header).Ensures m
          (Written loop (Path.allInside (.loop none) (Stmt.allBreaks body)) n) := by
        intro m header hheader
        exact .freshLabel (.bind (hbody m) fun m' cs hcs => .pure (.loop hheader hcs))
      split
      · refine .bind (written_exprOption start n) fun m o ho => hfinish m _ ?_
        exact ((ho.getD fun _ => .text _).text_append _).append_text _
      · refine .bind (written_indexSequence (written_exprOption start) (written_exprOption stop))
          fun m f hf => hfinish m _ ?_
        exact (hf.text_append _).append_text _
    | _ =>
      simp only [stmt, Stmt.breaks]
      refine .after (keepsLabels_mapTypeOr _ type) fun spelling => ?_
      refine .bind hiterable fun m f hf => .freshLabel ?_
      exact .bind (hbody m) fun m' cs hcs => .pure (.loop ((hf.text_append _).append_text _) hcs)
  | .ret none, n => by
    rw [stmt, Stmt.breaks.eq_def]
    exact .pure (.text _)
  | .ret (some value), n => by
    rw [stmt, Stmt.breaks.eq_def]
    exact .bind (written_expr value n) fun m f hf =>
      .pure (.line ((hf.text_append _).append_text _))
  | .breakLoop, n => by
    rw [stmt, Stmt.breaks]
    exact .pure .leave
  | .continueLoop, n => by
    rw [stmt, Stmt.breaks.eq_def]
    exact .pure .nextRound
  | .matchOn scrutinee arms, n => by
    rw [stmt, Stmt.breaks]
    refine .bind (written_expr scrutinee n) fun m f hf => ?_
    exact .bind (written_matchCases (loop.map LoopFrame.enterSwitch) arms m) fun m' cs hcs =>
      .pure (.switch ((hf.text_append _).append_text _) hcs)
  | .switchOn subject cases, n => by
    rw [stmt, Stmt.breaks]
    refine .bind (written_expr subject n) fun m f hf => ?_
    exact .bind (written_switchCases (loop.map LoopFrame.enterSwitch) cases m) fun m' cs hcs =>
      .pure (.switch ((hf.text_append _).append_text _) hcs)
  | .expr value, n => by
    have hvalue : (expr env scope value).Ensures n (WrittenFragment n) := written_expr value n
    cases value with
    | matchOn scrutinee arms =>
      -- A match that is no value of anything is written as a switch statement.
      rw [stmt, Stmt.breaks]
      refine .bind (written_expr scrutinee n) fun m f hf => ?_
      exact .bind (written_matchCases (loop.map LoopFrame.enterSwitch) arms m) fun m' cs hcs =>
        .pure (.switch ((hf.text_append _).append_text _) hcs)
    | _ =>
      simp only [stmt, Stmt.breaks]
      exact .bind hvalue fun m f hf => .pure (.effectLine _ hf)
  | .raw block, n => by
    rw [stmt, Stmt.breaks.eq_def]
    refine (target.ensures_rawCode block n).mono ?_
    rintro m code ⟨rfl, rfl | rfl⟩
    · exact .nil
    · exact .verbatim _
  | .functionDecl _ decl, n => by
    rw [stmt, Stmt.breaks.eq_def]
    refine .bind (written_function loop { isLocal := true } _ (fun _ _ => .pure ⟨[], .nil⟩) decl n)
      fun m cs hcs => .pure ?_
    exact Written.separator.append hcs
  | .typeDecl _ _, n => by
    rw [stmt]
    exact .fail _
  | .enumDecl _, n => by
    rw [stmt]
    exact .fail _
  | .importDecl _, n | .includeDecl _ _, n | .aliasDecl _, n | .namespaceDecl _ _, n
  | .moduleDecl _, n | .fieldDecl _, n | .propertyDecl _, n => by
    simp only [stmt, Stmt.breaks]
    refine (target.ensures_refuseInBody scope _ n).mono ?_
    rintro m code ⟨rfl, rfl⟩
    exact .nil

theorem written_binding {scope : Scope} :
    ∀ (b : Binding) (n : Nat), (binding env scope b).Ensures n (WrittenFragment n)
  | ⟨name, type, value, mutability⟩, n => by
    rw [binding]
    refine .bind (written_exprOption value n) fun m o ho => ?_
    refine .after (.optionMapM keepsLabels_mapType type) fun spelling => .pure ?_
    exact written_variableText ho

theorem written_forClause {scope : Scope} :
    ∀ (start : Option Stmt) (n : Nat), (forClause env scope start).Ensures n (WrittenFragment n)
  | none, n => by
    rw [forClause]
    exact .pure .nil
  | some s, n => by
    cases s with
    | binding b =>
      rw [forClause]
      exact written_binding b n
    | expr value =>
      rw [forClause]
      exact written_expr value n
    | _ =>
      simp only [forClause]
      exact .after (.report _) fun _ => .pure .nil

theorem written_elseChain {scope : Scope} (loop : Option LoopFrame) :
    ∀ (branch : Option (List Stmt)) (n : Nat), (elseChain env scope loop branch).Ensures n
      (Written loop (Stmt.branchBreaks branch) n)
  | none, n => by
    rw [elseChain]
    exact .pure .nil
  | some [], n => by
    simp only [elseChain, stmts, Stmt.branchBreaks, Stmt.allBreaks, pure_bind]
    exact .pure (.plain (.text _) .nil)
  | some [s], n => by
    -- An `if` alone continues the chain; any other statement is a block of its own.
    have hs : (stmts env scope loop [s]).Ensures n (Written loop (Stmt.allBreaks [s]) n) :=
      written_stmts loop [s] n
    cases s with
    | ifThen condition thenBranch elseBranch =>
      rw [elseChain, Stmt.branchBreaks, Stmt.allBreaks, Stmt.allBreaks, List.append_nil,
        Stmt.breaks_ifThen]
      refine .bind (written_expr condition n) fun m f hf => ?_
      refine .bind (written_stmts loop thenBranch m) fun m' cs hcs => ?_
      refine .bind (written_elseChain loop elseBranch m') fun m'' ds hds => .pure ?_
      exact (Written.plain ((hf.text_append _).append_text _) hcs).append hds
    | _ =>
      simp only [elseChain, Stmt.branchBreaks]
      exact .bind hs fun m cs hcs => .pure (.plain (.text _) hcs)
  | some (s :: s' :: ss), n => by
    simp only [elseChain, Stmt.branchBreaks]
    exact .bind (written_stmts loop (s :: s' :: ss) n) fun m cs hcs =>
      .pure (.plain (.text _) hcs)

theorem written_caseLabels {scope : Scope} (loop : Option LoopFrame) :
    ∀ (pattern : Pattern) (n : Nat), (caseLabels env scope pattern).Ensures n (Written loop [] n)
  | .default, n => by
    rw [caseLabels]
    exact .pure (.text _)
  | .values values, n => by
    rw [caseLabels]
    exact .bind (written_exprs values n) fun m fs hfs => .pure (hfs.lines _ _)

theorem written_matchCases {scope : Scope} (loop : Option LoopFrame) :
    ∀ (arms : List MatchArm) (n : Nat), (matchCases env scope loop arms).Ensures n
      (Written loop (Stmt.armBreaks arms) n)
  | [], n => by
    rw [matchCases]
    exact .pure .nil
  | ⟨pattern, .expr value⟩ :: arms, n => by
    rw [matchCases, Stmt.armBreaks]
    refine .bind (written_caseLabels loop pattern n) fun m ls hls => ?_
    refine .bind (written_expr value m) fun m' f hf => ?_
    refine .bind (written_matchCases loop arms m') fun m'' ds hds => .pure ?_
    exact hls.case ((Written.effectLine value hf).append .endCase) hds
  | ⟨pattern, .block block⟩ :: arms, n => by
    rw [matchCases, Stmt.armBreaks]
    refine .bind (written_caseLabels loop pattern n) fun m ls hls => ?_
    refine .bind (written_stmts loop block m) fun m' cs hcs => ?_
    exact .bind (written_matchCases loop arms m') fun m'' ds hds =>
      .pure (hls.case (hcs.caseBlock block) hds)

theorem written_switchCases {scope : Scope} (loop : Option LoopFrame) :
    ∀ (cases : List SwitchCase) (n : Nat), (switchCases env scope loop cases).Ensures n
      (Written loop (Stmt.caseBreaks cases) n)
  | [], n => by
    rw [switchCases]
    exact .pure .nil
  | ⟨pattern, block⟩ :: cases, n => by
    rw [switchCases, Stmt.caseBreaks]
    refine .bind (written_caseLabels loop pattern n) fun m ls hls => ?_
    refine .bind (written_stmts loop block m) fun m' cs hcs => ?_
    exact .bind (written_switchCases loop cases m') fun m'' ds hds =>
      .pure (hls.case (hcs.caseBlock block) hds)

theorem written_attributeLines {scope : Scope} (loop : Option LoopFrame) :
    ∀ (attributes : List Attribute) (n : Nat), (attributeLines env scope attributes).Ensures n
      (Written loop [] n)
  | [], n => by
    rw [attributeLines]
    exact .pure .nil
  | ⟨name, args⟩ :: attributes, n => by
    rw [attributeLines]
    split
    · exact written_attributeLines loop attributes n
    · have hargs : (exprs env scope args).Ensures n (WrittenFragments n) := written_exprs args n
      have hrest : ∀ m, (attributeLines env scope attributes).Ensures m (Written loop [] m) :=
        written_attributeLines loop attributes
      cases args with
      | nil =>
        rw [exprs, pure_bind]
        exact .bind (hrest n) fun m ds hds =>
          .pure ((Written.line ((WrittenFragment.nil.text_append _).append_text _)).append hds)
      | cons arg args =>
        refine .bind hargs fun m fs hfs => .bind (hrest m) fun m' ds hds => .pure ?_
        exact (Written.line (((hfs.join _).parens.text_append _).append_text _)).append hds

theorem written_parameters {scope : Scope} :
    ∀ (params : List Parameter) (n : Nat), (parameters env scope params).Ensures n
      (WrittenFragments n)
  | [], n => by
    rw [parameters]
    exact .pure .nil
  | ⟨name, type, default⟩ :: params, n => by
    rw [parameters]
    refine .after (keepsLabels_mapTypeOr _ type) fun spelling => ?_
    refine .bind (written_exprOption default n) fun m o ho => ?_
    exact .bind (written_parameters params m) fun m' fs hfs =>
      .pure (.cons ((ho.elim _).text_append _) hfs)

/-- The same of a function, which opens no loop for its body. -/
theorem written_function {scope : Scope} (loop : Option LoopFrame) (options : FunctionOptions)
    (prologue : Scope → Gen (List Code))
    (hprologue : ∀ scope n, (prologue scope).Ensures n fun m cs => ∃ ps, Written none ps n m cs) :
    ∀ (decl : Function) (n : Nat), (function env scope options prologue decl).Ensures n
      (Written loop [] n)
  | ⟨name, params, returnType, generics, modifiers, attributes, body, isConstructor, isStatic⟩,
      n => by
    rw [function]
    refine .after (target.keepsLabels_skipMarked _ _ _) fun skipped => ?_
    split
    · exact .pure .nil
    split
    · exact .after (.report _) fun _ => .pure .nil
    refine .bind (written_attributeLines loop attributes n) fun m ls hls => ?_
    refine .bind (written_parameters params m) fun m' fs hfs => ?_
    -- The kinds of functions differ in the text around the parameters.
    extract_lets +lift shown words finish named
    have hfinish : ∀ before after : String,
        (finish (text before ++ shown ++ text after)).Ensures m' (Written loop [] n) := by
      intro before after
      have hhead := ((hfs.join ", ").text_append before).append_text after
      exact .bind (written_functionBody loop prologue hprologue body m' hhead) fun m'' cs hcs =>
        .pure (hls.append hcs)
    have hnamed : ∀ returns, (named returns).Ensures m' (Written loop [] n) := fun returns =>
      .after (keepsLabels_whereClauses generics) fun clauses => hfinish _ _
    split
    · exact hfinish _ _
    · split
      · exact hnamed _
      · exact .after (keepsLabels_returnSpelling _ _) hnamed

theorem written_functionBody {scope : Scope} (loop : Option LoopFrame)
    (prologue : Scope → Gen (List Code))
    (hprologue : ∀ scope n, (prologue scope).Ensures n fun m cs => ∃ ps, Written none ps n m cs)
    {a : Nat} {head : Fragment} :
    ∀ (body : Option (List Stmt)) (n : Nat), WrittenFragment a n head →
      (functionBody env scope prologue head body).Ensures n (Written loop [] a)
  | none, n, hhead => by
    rw [functionBody]
    exact .pure (.line (hhead.append_text _))
  | some body, n, hhead => by
    rw [functionBody]
    refine .bind (hprologue scope n) fun m cs ⟨ps, hcs⟩ => ?_
    exact .bind (written_stmts none body m) fun m' ds hds =>
      .pure (.function hhead (hcs.append hds))

end

end CSharp

end SourceGen
