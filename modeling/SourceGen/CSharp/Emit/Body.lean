import SourceGen.CSharp.Body
import SourceGen.Emit.Emitter

/-!
# Emitting C# bodies

Expressions, statements and functions in C#, written by an emitter. An expression is rendered to
text with the margins of the place where it stands; a statement goes line by line into the buffer.
Whether a `break` leaves a loop by its label is decided by the loops and switches that are open.

## Main definitions

* `CSharp.emitExpr`: the text of an expression.
* `CSharp.emitStmt`, `CSharp.emitStmts`: writes statements.
* `CSharp.emitFunction`: writes a function, method or constructor.
-/

namespace SourceGen

namespace CSharp

/-! ### Expressions without their parts -/

/-- The text of an expression as an operand. -/
def groupedText (e : Expr) (s : String) : String :=
  if needsParens e then "(" ++ s ++ ")" else s

/-- A call of a builtin under its .NET name. -/
def emitBuiltin (fn : Builtin) (argCount : Nat) (args : String) : Emit String := do
  Gen.requireImport systemNamespace
  match fn with
  | .print =>
    if argCount > 1 then return "Console.WriteLine(string.Join(\" \", " ++ args ++ "))"
    else return "Console.WriteLine(" ++ args ++ ")"
  | .len => do
    Gen.requireImport linqNamespace
    return "Enumerable.Count(" ++ args ++ ")"
  | .str => return "Convert.ToString(" ++ args ++ ")"
  | .abs => return "Math.Abs(" ++ args ++ ")"
  | .min => return "Math.Min(" ++ args ++ ")"
  | .max => return "Math.Max(" ++ args ++ ")"
  | .sqrt => return "Math.Sqrt(" ++ args ++ ")"

/-- A call of a builtin: under its own name if the unit defines it, else under its .NET name. -/
def emitBuiltinOrShim (env : Env) (fn : Builtin) (argCount : Nat) (args : String) : Emit String :=
  if env.config.emitShims then return fn.name ++ "(" ++ args ++ ")"
  else emitBuiltin fn argCount args

/-- An array with its element type, if it has one or cannot infer it. -/
def emitArray (env : Env) (scope : Scope) (isEmpty : Bool) (items : String)
    (elementType : Option TypeRef) : Emit String := do
  let body := if items.isEmpty then "\x7b \x7d" else "\x7b " ++ items ++ " \x7d"
  match elementType with
  | some type => return "new " ++ (← mapType env scope type) ++ "[] " ++ body
  | none => return (if isEmpty then "new object[] " else "new[] ") ++ body

/-- The number of elements of a range: a number if the bounds are literals, else the difference of
the bounds. -/
def emitRangeCount (r : Range) (start stop : Emit (Option String)) : Emit String :=
  match foldedCount? r with
  | some count => return toString count
  | none => do
    if r.hasLiteralBounds then
      Gen.report rangeTooLong
    let last ←
      match r.stop with
      | some e => pure (groupedText e ((← stop).getD ""))
      | none => pure "int.MaxValue"
    let difference ←
      match r.start with
      | some e =>
        if e.integer? == some 0 then pure last
        else pure (last ++ " - " ++ groupedText e ((← start).getD ""))
      | none => pure last
    return if r.inclusive && r.stop.isSome then difference ++ " + 1" else difference

/-- A range as a sequence of integers. -/
def emitSequence (r : Range) (start stop : Emit (Option String)) : Emit String := do
  Gen.requireImport linqNamespace
  let first := (← start).getD "0"
  let count ← emitRangeCount r start stop
  return "Enumerable.Range(" ++ first ++ ", " ++ count ++ ")"

/-- Code in a closure, between its braces. No jump leaves it. -/
def emitClosure (body : Emit Unit) : Emit String := do
  let inner ← Emit.capture (Emit.withoutLoops body)
  return "\x7b\n" ++ inner ++ (← Emit.fragmentIndent) ++ "\x7d"

/-- Code in a closure that is called on the spot. -/
def emitInvoked (body : Emit Unit) : Emit String := do
  Gen.requireImport systemNamespace
  return "((Func<dynamic>)(() => " ++ (← emitClosure body) ++ "))()"

/-- The arms of a switch expression between braces, each on a line of its own. -/
def emitArms (subject : String) (arms : Emit (List String)) : Emit String := do
  let openIndent ← Emit.fragmentIndent
  let armIndent ← Emit.look (Emitter.margin 1)
  let shown ← Emit.deeper arms
  let lines := String.join (shown.map fun arm => armIndent ++ arm ++ ",\n")
  return subject ++ " switch" ++ "\n" ++ openIndent ++ "\x7b\n" ++ lines ++ openIndent ++ "\x7d"

/-! ### Statements without their parts -/

/-- A loop; the label behind it follows if something jumps there. -/
def emitLoop (header : String) (body : Emit Unit) : Emit Unit := do
  let number ← Gen.freshLabel
  Emit.step (Emitter.pushLoop { number })
  Emit.openBlock header
  body
  Emit.closeBlock ""
  let frame ← Emit.take (·.loops.head?) fun e => { e with loops := e.loops.tail }
  match frame with
  | some loop => Emit.lineUnless (!loop.exitUsed) (loop.label ++ ": ;")
  | none => return

/-- A switch; a `break` in its cases would leave only the switch. -/
def emitSwitch (subject : Emit String) (cases : Emit Unit) : Emit Unit := do
  let shown ← subject
  Emit.openBlock ("switch (" ++ shown ++ ")")
  Emit.step (Emitter.onInnermost fun loop => { loop with switchDepth := loop.switchDepth + 1 })
  cases
  Emit.step (Emitter.onInnermost fun loop => { loop with switchDepth := loop.switchDepth - 1 })
  Emit.closeBlock ""

/-- An expression as a statement; a bare value is discarded explicitly. -/
def effectText (e : Expr) (s : String) : String :=
  if e.isEffect then s ++ ";" else "_ = " ++ s ++ ";"

/-- The body of a case: it ends with a jump, and variables get a block of their own. -/
def emitCaseBlock (block : List Stmt) (body : Emit Unit) : Emit Unit := do
  Emit.openBraces (block.any declaresVariable)
  body
  Emit.lineUnless (Stmt.endsWithJump block) "break;"
  Emit.closeBraces (block.any declaresVariable)

/-- A variable without its semicolon. -/
def bindingText (mutability : Mutability) (name : String) (type : Option String)
    (value : Option String) : String :=
  match type, value with
  | some type, some value =>
    (if mutability = .constant then "const " else "") ++ type ++ " " ++ name ++ " = " ++ value
  | some type, none => type ++ " " ++ name
  | none, some value => "var " ++ name ++ " = " ++ value
  | none, none => untyped ++ " " ++ name

/-! ### The mutual family -/

mutual

/-- The text of an expression. -/
def emitExpr (env : Env) (scope : Scope) : Expr → Emit String
  | .literal value => return literal value
  | .ident name => return ident name
  | .path parts => return path parts
  | .member object name => do
    return groupedText object (← emitExpr env scope object) ++ "." ++ ident name
  | .index object i => do
    let object' := groupedText object (← emitExpr env scope object)
    return object' ++ "[" ++ (← emitExpr env scope i) ++ "]"
  | .binary left op right => do
    let l := groupedText left (← emitExpr env scope left)
    let r := groupedText right (← emitExpr env scope right)
    if op = .starStar then
      Gen.requireImport systemNamespace
      return "Math.Pow(" ++ l ++ ", " ++ r ++ ")"
    else
      return l ++ " " ++ binaryOp op ++ " " ++ r
  | .unary op operand trailing => do
    let inner := groupedText operand (← emitExpr env scope operand)
    return if trailing then inner ++ unaryOp op else unaryOp op ++ inner
  | .assign target op value => do
    let left ← emitExpr env scope target
    return left ++ " " ++ binaryOp op ++ " " ++ (← emitExpr env scope value)
  | .call (.ident name) args => do
    let rendered := Text.join ", " (← emitExprs env scope args)
    match Callee.of (.ident name) with
    | .builtin fn _ => emitBuiltinOrShim env fn args.length rendered
    | _ => return ident name ++ "(" ++ rendered ++ ")"
  | .call (.path parts) args => do
    let rendered := Text.join ", " (← emitExprs env scope args)
    return path parts ++ "(" ++ rendered ++ ")"
  | .call (.member receiver name) args => do
    let rendered := Text.join ", " (← emitExprs env scope args)
    let object := groupedText receiver (← emitExpr env scope receiver)
    return object ++ "." ++ ident name ++ "(" ++ rendered ++ ")"
  | .call callee args => do
    let rendered := Text.join ", " (← emitExprs env scope args)
    return groupedText callee (← emitExpr env scope callee) ++ "(" ++ rendered ++ ")"
  | .construct type args => do
    let spelling ← mapType env scope type
    let rendered := Text.join ", " (← emitExprs env scope args)
    return "new " ++ spelling ++ "(" ++ rendered ++ ")"
  | .array elements elementType => do
    let items := Text.join ", " (← emitExprs env scope elements)
    emitArray env scope elements.isEmpty items elementType
  | .lambda params (.expr value) => do
    let head ← lambdaHead env scope params
    return head ++ " => " ++ (← emitExpr env scope value)
  | .lambda params (.block block) => do
    let head ← lambdaHead env scope params
    return head ++ " => " ++ (← emitClosure (emitStmts env scope block))
  | .range start stop inclusive =>
    emitSequence ⟨start, stop, inclusive⟩ (emitExprOption env scope start)
      (emitExprOption env scope stop)
  | .block block => emitInvoked (emitValueBlock env scope block)
  | .matchOn scrutinee arms => do
    let subject := groupedText scrutinee (← emitExpr env scope scrutinee)
    emitArms subject (emitSwitchArms env scope arms)
  | .this => return "this"

/-- The texts of expressions, from left to right. -/
def emitExprs (env : Env) (scope : Scope) : List Expr → Emit (List String)
  | [] => return []
  | e :: es => return (← emitExpr env scope e) :: (← emitExprs env scope es)

/-- The text of an optional expression. -/
def emitExprOption (env : Env) (scope : Scope) : Option Expr → Emit (Option String)
  | none => return none
  | some e => return some (← emitExpr env scope e)

/-- Writes a block whose last expression is its value; without one the value is null. -/
def emitValueBlock (env : Env) (scope : Scope) : List Stmt → Emit Unit
  | [] => Emit.line "return null;"
  | [.expr value] => do
    let shown ← emitExpr env scope value
    Emit.line ("return " ++ shown ++ ";")
  | [s] => do
    emitStmt env scope s
    Emit.lineUnless s.isReturn "return null;"
  | s :: ss => do
    emitStmt env scope s
    emitValueBlock env scope ss

/-- The arms of a switch expression; a block becomes a closure that is called on the spot. -/
def emitSwitchArms (env : Env) (scope : Scope) : List MatchArm → Emit (List String)
  | [] => return []
  | ⟨pattern, .expr value⟩ :: arms => do
    let selector ← emitSelector env scope pattern
    let result ← emitExpr env scope value
    return (selector ++ " => " ++ result) :: (← emitSwitchArms env scope arms)
  | ⟨pattern, .block block⟩ :: arms => do
    let selector ← emitSelector env scope pattern
    let result ← emitInvoked do
      emitStmts env scope block
      Emit.lineUnless (Stmt.endsWithReturn block) "return null;"
    return (selector ++ " => " ++ result) :: (← emitSwitchArms env scope arms)

/-- The pattern of an arm of a switch expression. -/
def emitSelector (env : Env) (scope : Scope) : Pattern → Emit String
  | .default => return "_"
  | .values values => return Text.join " or " (← emitExprs env scope values)

/-- Writes a statement. -/
def emitStmt (env : Env) (scope : Scope) : Stmt → Emit Unit
  | .binding b => do
    let shown ← emitBinding env scope b
    Emit.line (shown ++ ";")
  | .ifThen condition thenBranch elseBranch => do
    let shown ← emitExpr env scope condition
    Emit.openBlock ("if (" ++ shown ++ ")")
    emitStmts env scope thenBranch
    Emit.closeBlock ""
    emitElseChain env scope elseBranch
  | .whileLoop condition body => do
    let shown ← emitExpr env scope condition
    emitLoop ("while (" ++ shown ++ ")") (emitStmts env scope body)
  | .forLoop start condition step body => do
    let first ← emitForClause env scope start
    let second ← emitExprOption env scope condition
    let third ← emitExprOption env scope step
    emitLoop ("for (" ++ first ++ ";" ++ second.elim "" (" " ++ ·) ++ ";" ++
      third.elim "" (" " ++ ·) ++ ")") (emitStmts env scope body)
  | .forEach name type (.range start stop inclusive) body => do
    let spelling ← mapTypeOr env scope "var" type
    if stop.isNone then do
      let first := (← emitExprOption env scope start).getD "0"
      emitLoop ("for (" ++ spelling ++ " " ++ ident name ++ " = " ++ first ++ "; ; " ++
        ident name ++ "++)") (emitStmts env scope body)
    else do
      let sequence ← emitSequence ⟨start, stop, inclusive⟩ (emitExprOption env scope start)
        (emitExprOption env scope stop)
      emitLoop ("foreach (" ++ spelling ++ " " ++ ident name ++ " in " ++ sequence ++ ")")
        (emitStmts env scope body)
  | .forEach name type iterable body => do
    let spelling ← mapTypeOr env scope "var" type
    let sequence ← emitExpr env scope iterable
    emitLoop ("foreach (" ++ spelling ++ " " ++ ident name ++ " in " ++ sequence ++ ")")
      (emitStmts env scope body)
  | .ret none => Emit.line "return;"
  | .ret (some value) => do
    let shown ← emitExpr env scope value
    Emit.line ("return " ++ shown ++ ";")
  | .breakLoop => Emit.step Emitter.breakLoop
  | .continueLoop => Emit.line "continue;"
  | .matchOn scrutinee arms =>
    emitSwitch (emitExpr env scope scrutinee) (emitMatchCases env scope arms)
  | .expr (.matchOn scrutinee arms) =>
    emitSwitch (emitExpr env scope scrutinee) (emitMatchCases env scope arms)
  | .switchOn subject cases =>
    emitSwitch (emitExpr env scope subject) (emitSwitchCases env scope cases)
  | .expr value => do
    let shown ← emitExpr env scope value
    Emit.line (effectText value shown)
  | .raw block => target.emitRaw block
  | .functionDecl _ decl => do
    Emit.separator
    Emit.withoutLoops (emitFunction env scope { isLocal := true } (fun _ => return) decl)
  | .typeDecl _ decl => Gen.fail (.typeInBody scope decl.name)
  | .enumDecl decl => Gen.fail (.typeInBody scope decl.name)
  | s => target.emitRefusal scope s

/-- Writes statements. -/
def emitStmts (env : Env) (scope : Scope) : List Stmt → Emit Unit
  | [] => return
  | s :: ss => do
    emitStmt env scope s
    emitStmts env scope ss

/-- A variable without its semicolon; the value is rendered before the type is looked up. -/
def emitBinding (env : Env) (scope : Scope) : Binding → Emit String
  | ⟨name, type, value, mutability⟩ => do
    let rendered ← emitExprOption env scope value
    let spelling ← (type.mapM (mapType env scope) : Gen (Option String))
    return bindingText mutability (ident name) spelling rendered

/-- The first clause of a counted loop. -/
def emitForClause (env : Env) (scope : Scope) : Option Stmt → Emit String
  | none => return ""
  | some (.binding b) => emitBinding env scope b
  | some (.expr value) => emitExpr env scope value
  | some s => do
    Gen.report (.noLoopStart s)
    return ""

/-- Writes the branches behind an `if`; a lone `if` in an else branch continues the chain. -/
def emitElseChain (env : Env) (scope : Scope) : Option (List Stmt) → Emit Unit
  | none => return
  | some [.ifThen condition thenBranch elseBranch] => do
    let shown ← emitExpr env scope condition
    Emit.openBlock ("else if (" ++ shown ++ ")")
    emitStmts env scope thenBranch
    Emit.closeBlock ""
    emitElseChain env scope elseBranch
  | some block => do
    Emit.openBlock "else"
    emitStmts env scope block
    Emit.closeBlock ""

/-- Writes the labels of a case. -/
def emitCaseLabels (env : Env) (scope : Scope) : Pattern → Emit Unit
  | .default => Emit.line "default:"
  | .values values => emitCaseValues env scope values

/-- Writes a label for each value of a case. -/
def emitCaseValues (env : Env) (scope : Scope) : List Expr → Emit Unit
  | [] => return
  | value :: values => do
    let shown ← emitExpr env scope value
    Emit.line ("case " ++ shown ++ ":")
    emitCaseValues env scope values

/-- Writes the arms of a match as cases of a switch statement. -/
def emitMatchCases (env : Env) (scope : Scope) : List MatchArm → Emit Unit
  | [] => return
  | ⟨pattern, .expr value⟩ :: arms => do
    emitCaseLabels env scope pattern
    Emit.indent
    let shown ← emitExpr env scope value
    Emit.line (effectText value shown)
    Emit.line "break;"
    Emit.dedent
    emitMatchCases env scope arms
  | ⟨pattern, .block block⟩ :: arms => do
    emitCaseLabels env scope pattern
    Emit.indent
    emitCaseBlock block (emitStmts env scope block)
    Emit.dedent
    emitMatchCases env scope arms

/-- Writes the cases of a switch statement. -/
def emitSwitchCases (env : Env) (scope : Scope) : List SwitchCase → Emit Unit
  | [] => return
  | ⟨pattern, block⟩ :: cases => do
    emitCaseLabels env scope pattern
    Emit.indent
    emitCaseBlock block (emitStmts env scope block)
    Emit.dedent
    emitSwitchCases env scope cases

/-- Writes the attributes that are no markers. -/
def emitAttributes (env : Env) (scope : Scope) : List Attribute → Emit Unit
  | [] => return
  | ⟨name, args⟩ :: attributes => do
    if (Marker.ofName? name).isSome then emitAttributes env scope attributes
    else
      let rendered ← emitExprs env scope args
      let shown := if args.isEmpty then "" else "(" ++ Text.join ", " rendered ++ ")"
      Emit.line ("[" ++ name ++ shown ++ "]")
      emitAttributes env scope attributes

/-- The parameters of a function. -/
def emitParameters (env : Env) (scope : Scope) : List Parameter → Emit (List String)
  | [] => return []
  | ⟨name, type, default⟩ :: params => do
    let spelling ← mapTypeOr env scope untyped type
    let value ← emitExprOption env scope default
    let shown := spelling ++ " " ++ ident name ++ value.elim "" (" = " ++ ·)
    return shown :: (← emitParameters env scope params)

/-- Writes a function, method or constructor; `prologue` is written ahead of its own body. -/
def emitFunction (env : Env) (scope : Scope) (options : FunctionOptions)
    (prologue : Scope → Emit Unit) : Function → Emit Unit
  | ⟨name, params, returnType, generics, modifiers, attributes, body, isConstructor, isStatic⟩ => do
    if ← target.skipMarked (if isConstructor then "constructor" else "function") name
        attributes then
      return
    if Text.hasChar '.' name then
      Gen.report (.qualifiedFunction name)
      return
    let makeStatic := !isConstructor && !scope.inInterface &&
      (isStatic || scope.inStatic || options.forceStatic)
    let inner := { scope with functionGenerics := generics, inStatic := makeStatic }
    emitAttributes env inner attributes
    let shown := Text.join ", " (← emitParameters env inner params)
    let words :=
      if options.isLocal then "" else modifierText modifiers .publicAccess makeStatic scope
    let head ←
      if isConstructor then
        pure (words ++ ident (scope.className.getD name) ++ "(" ++ shown ++ ")")
      else do
        let returns ←
          match options.returns with
          | some returns => pure returns
          | none => returnSpelling env inner returnType body
        let clauses ← whereClauses env inner generics
        pure (words ++ returns ++ " " ++ ident (options.name.getD name) ++
          genericList generics ++ "(" ++ shown ++ ")" ++ clauses)
    emitFunctionBody env { inner with inConstructor := scope.inConstructor || isConstructor }
      prologue head body

/-- Writes the body of a function behind its head; without a body there is only the head. -/
def emitFunctionBody (env : Env) (scope : Scope) (prologue : Scope → Emit Unit) (head : String) :
    Option (List Stmt) → Emit Unit
  | none => Emit.line (head ++ ";")
  | some body => do
    Emit.openBlock head
    prologue scope
    emitStmts env scope body
    Emit.closeBlock ""

end

end CSharp

end SourceGen
