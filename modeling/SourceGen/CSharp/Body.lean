import SourceGen.Analysis.Arms
import SourceGen.Analysis.Callee
import SourceGen.Analysis.Flow
import SourceGen.Analysis.Range
import SourceGen.CSharp.Types
import SourceGen.Layout.Code
import SourceGen.Omission

/-!
# C# bodies

Expressions, statements and functions in C#. An expression becomes a fragment, a statement becomes
code. A `break` inside a switch would leave only the switch, so it becomes a jump behind the loop,
which then gets a label.

## Main definitions

* `CSharp.expr`: the fragment of an expression.
* `CSharp.stmt`, `CSharp.stmts`: the code of statements.
* `CSharp.function`: the code of a function, method or constructor.
* `CSharp.LoopFrame`: the loop around a statement.
-/

namespace SourceGen

namespace CSharp

open Fragment (text)

/-! ### Expressions without their parts -/

/-- The operand needs parentheses to keep the grouping of the tree. -/
def needsParens : Expr → Bool
  | .binary _ _ _ | .assign _ _ _ | .lambda _ _ | .range _ _ _ | .matchOn _ _ => true
  | .unary _ _ trailing => !trailing
  | _ => false

/-- The fragment of an expression as an operand. -/
def grouped (e : Expr) (f : Fragment) : Fragment :=
  if needsParens e then f.parens else f

/-- A call of a builtin under its .NET name. -/
def builtinCall (fn : Builtin) (argCount : Nat) (args : Fragment) : Gen Fragment := do
  Gen.requireImport systemNamespace
  match fn with
  | .print =>
    if argCount > 1 then return text "Console.WriteLine(string.Join(\" \", " ++ args ++ text "))"
    else return text "Console.WriteLine(" ++ args ++ text ")"
  | .len => do
    Gen.requireImport linqNamespace
    return text "Enumerable.Count(" ++ args ++ text ")"
  | .str => return text "Convert.ToString(" ++ args ++ text ")"
  | .abs => return text "Math.Abs(" ++ args ++ text ")"
  | .min => return text "Math.Min(" ++ args ++ text ")"
  | .max => return text "Math.Max(" ++ args ++ text ")"
  | .sqrt => return text "Math.Sqrt(" ++ args ++ text ")"

/-- A call of a builtin: under its own name if the unit defines it, else under its .NET name. -/
def builtinOrShim (env : Env) (fn : Builtin) (argCount : Nat) (args : Fragment) : Gen Fragment :=
  if env.config.emitShims then return text (fn.name ++ "(") ++ args ++ text ")"
  else builtinCall fn argCount args

/-- An array with its element type, if it has one or cannot infer it. -/
def arrayLiteral (env : Env) (scope : Scope) (isEmpty : Bool) (items : Fragment)
    (elementType : Option TypeRef) : Gen Fragment := do
  let body :=
    if items.isBlank then text "\x7b \x7d" else text "\x7b " ++ items ++ text " \x7d"
  match elementType with
  | some type => return text ("new " ++ (← mapType env scope type) ++ "[] ") ++ body
  | none => return text (if isEmpty then "new object[] " else "new[] ") ++ body

/-- The parameters of a lambda: all typed as soon as one is, and without parentheses if there is
only one and it is not typed. -/
def lambdaHead (env : Env) (scope : Scope) (params : List Parameter) : Gen String := do
  if params.any (·.type.isSome) then
    let typed ← params.mapM fun p =>
      return (← mapTypeOr env scope untyped p.type) ++ " " ++ ident p.name
    return "(" ++ Text.join ", " typed ++ ")"
  else
    match params with
    | [single] => return ident single.name
    | _ => return "(" ++ Text.join ", " (params.map fun p => ident p.name) ++ ")"

/-- The greatest number of elements that a sequence of integers can count. -/
def maxCount : Int :=
  2147483647

/-- The number of elements of a range with literal bounds, if a sequence can count them. -/
def foldedCount? (r : Range) : Option Int :=
  r.count?.filter (· ≤ maxCount)

/-- The warning about a range that is too long. -/
def rangeTooLong : Diagnostic :=
  ((Diagnostic.warning "range has more elements than `Enumerable.Range` can count").withContext
    target.id).withNote "the count exceeds `int.MaxValue`"

/-- The number of elements of a range: a number if the bounds are literals, else the difference of
the bounds. -/
def rangeCount (r : Range) (start stop : Gen (Option Fragment)) : Gen Fragment :=
  match foldedCount? r with
  | some count => return text (toString count)
  | none => do
    -- Literal bounds without a count are too far apart.
    if r.hasLiteralBounds then
      Gen.report rangeTooLong
    let last ←
      match r.stop with
      | some e => pure (grouped e ((← stop).getD []))
      | none => pure (text "int.MaxValue")
    let difference ←
      match r.start with
      | some e =>
        if e.integer? == some 0 then pure last
        else pure (last ++ text " - " ++ grouped e ((← start).getD []))
      | none => pure last
    return if r.inclusive && r.stop.isSome then difference ++ text " + 1" else difference

/-- A range as a sequence of integers. -/
def indexSequence (r : Range) (start stop : Gen (Option Fragment)) : Gen Fragment := do
  Gen.requireImport linqNamespace
  let first := (← start).getD (text "0")
  -- The count writes the bounds once more, and reports about them once more.
  let count ← rangeCount r start stop
  return text "Enumerable.Range(" ++ first ++ text ", " ++ count ++ text ")"

/-- Code in a closure that is called on the spot. -/
def invoked (body : List Code) : Fragment :=
  text "((Func<dynamic>)(() => " ++ [.nested .closure body] ++ text "))()"

/-! ### Statements without their parts -/

/-- The loop around a statement. -/
structure LoopFrame where
  number : Nat
  /-- A switch stands between the loop and the statement. -/
  inSwitch : Bool := false
  deriving DecidableEq, Repr

/-- The frame inside a switch. -/
def LoopFrame.enterSwitch (frame : LoopFrame) : LoopFrame :=
  { frame with inSwitch := true }

/-- How a statement leaves the innermost loop. -/
def leaveLoop : Option LoopFrame → Jump
  | some frame => if frame.inSwitch then .leaveLoop frame.number else .leaveInnermost
  | none => .leaveInnermost

/-- A loop, and the label behind it if something jumps there. -/
def loopCode (number : Nat) (header : Fragment) (body : List Code) : List Code :=
  .block (.loop (some number)) header body "" ::
    if Code.anyLeaves number body then [.exitLabel number] else []

/-- An expression as a statement; a bare value is discarded explicitly. -/
def effectLine (e : Expr) (f : Fragment) : Code :=
  if e.isEffect then .line (f ++ text ";") else .line (text "_ = " ++ f ++ text ";")

/-- A variable without its semicolon. -/
def variableText (mutability : Mutability) (name : String) (type : Option String)
    (value : Option Fragment) : Fragment :=
  match type, value with
  | some type, some value =>
    text ((if mutability = .constant then "const " else "") ++ type ++ " " ++ name ++ " = ") ++
      value
  | some type, none => text (type ++ " " ++ name)
  | none, some value => text ("var " ++ name ++ " = ") ++ value
  | none, none => text (untyped ++ " " ++ name)

/-- The statement declares a variable. -/
def declaresVariable : Stmt → Bool
  | .binding _ => true
  | _ => false

/-- The code of a case: it ends with a jump, and variables get a block of their own, since cases
share one space of names. -/
def caseBlock (block : List Stmt) (code : List Code) : List Code :=
  let closed := if Stmt.endsWithJump block then code else code ++ [.jump .endCase]
  if block.any declaresVariable then [.braces closed] else closed

/-! ### Declarations without their parts -/

/-- The words in front of a declaration: the access, explicit or `default`, then `static`, then the
rest. Interface members have no default access. -/
def modifierWords (explicit : List Modifier) (default : Modifier) (makeStatic : Bool)
    (scope : Scope) : List String :=
  let access := explicit.filter Modifier.isAccess
  let shown := if access.isEmpty && !scope.inInterface then [default] else access
  let statics := if makeStatic || explicit.contains .static then [Modifier.static] else []
  let rest := explicit.filter fun m => !m.isAccess && m != .static
  (shown ++ statics ++ rest).map Modifier.word

/-- The words in front of a declaration, each with a blank behind it. -/
def modifierText (explicit : List Modifier) (default : Modifier) (makeStatic : Bool)
    (scope : Scope) : String :=
  String.join ((modifierWords explicit default makeStatic scope).map (· ++ " "))

/-- The names of generic parameters between angle brackets. -/
def genericList (generics : List GenericParam) : String :=
  Text.angled (generics.map (·.name))

/-- The constraints of generic parameters. -/
def whereClauses (env : Env) (scope : Scope) : List GenericParam → Gen String
  | [] => return ""
  | g :: gs => do
    if g.constraints.isEmpty then whereClauses env scope gs
    else
      let constraints ← mapTypes env scope g.constraints
      let rest ← whereClauses env scope gs
      return " where " ++ g.name ++ " : " ++ Text.join ", " constraints ++ rest

/-- The declared return type, else the untyped one if a value is returned. -/
def returnSpelling (env : Env) (scope : Scope) (declared : Option TypeRef)
    (body : Option (List Stmt)) : Gen String :=
  match declared with
  | some type => mapType env scope type
  | none => return if body.any Stmt.anyReturnsValue then untyped else "void"

/-- How a function is written besides what it declares. -/
structure FunctionOptions where
  /-- Written in place of the declared name. -/
  name : Option String := none
  /-- Written in place of the declared or inferred return type. -/
  returns : Option String := none
  forceStatic : Bool := false
  /-- A function inside a body has no modifiers. -/
  isLocal : Bool := false

/-! ### The mutual family -/

mutual

/-- The fragment of an expression. -/
def expr (env : Env) (scope : Scope) : Expr → Gen Fragment
  | .literal value => return text (literal value)
  | .ident name => return text (ident name)
  | .path parts => return text (path parts)
  | .member object name => do
    return grouped object (← expr env scope object) ++ text ("." ++ ident name)
  | .index object i => do
    let object' := grouped object (← expr env scope object)
    return object' ++ text "[" ++ (← expr env scope i) ++ text "]"
  | .binary left op right => do
    let l := grouped left (← expr env scope left)
    let r := grouped right (← expr env scope right)
    if op = .starStar then
      Gen.requireImport systemNamespace
      return text "Math.Pow(" ++ l ++ text ", " ++ r ++ text ")"
    else
      return l ++ text (" " ++ binaryOp op ++ " ") ++ r
  | .unary op operand trailing => do
    let inner := grouped operand (← expr env scope operand)
    return if trailing then inner ++ text (unaryOp op) else text (unaryOp op) ++ inner
  | .assign target op value => do
    let left ← expr env scope target
    return left ++ text (" " ++ binaryOp op ++ " ") ++ (← expr env scope value)
  | .call (.ident name) args => do
    let rendered := Fragment.join ", " (← exprs env scope args)
    match Callee.of (.ident name) with
    | .builtin fn _ => builtinOrShim env fn args.length rendered
    | _ => return text (ident name ++ "(") ++ rendered ++ text ")"
  | .call (.path parts) args => do
    let rendered := Fragment.join ", " (← exprs env scope args)
    return text (path parts ++ "(") ++ rendered ++ text ")"
  | .call (.member receiver name) args => do
    let rendered := Fragment.join ", " (← exprs env scope args)
    let object := grouped receiver (← expr env scope receiver)
    return object ++ text ("." ++ ident name ++ "(") ++ rendered ++ text ")"
  | .call callee args => do
    let rendered := Fragment.join ", " (← exprs env scope args)
    return grouped callee (← expr env scope callee) ++ text "(" ++ rendered ++ text ")"
  | .construct type args => do
    let spelling ← mapType env scope type
    let rendered := Fragment.join ", " (← exprs env scope args)
    return text ("new " ++ spelling ++ "(") ++ rendered ++ text ")"
  | .array elements elementType => do
    let items := Fragment.join ", " (← exprs env scope elements)
    arrayLiteral env scope elements.isEmpty items elementType
  | .lambda params (.expr value) => do
    let head ← lambdaHead env scope params
    return text (head ++ " => ") ++ (← expr env scope value)
  | .lambda params (.block block) => do
    let head ← lambdaHead env scope params
    return text (head ++ " => ") ++ [.nested .closure (← stmts env scope none block)]
  | .range start stop inclusive =>
    indexSequence ⟨start, stop, inclusive⟩ (exprOption env scope start) (exprOption env scope stop)
  | .block block => do
    Gen.requireImport systemNamespace
    return invoked (← valueBlock env scope block)
  | .matchOn scrutinee arms => do
    let subject := grouped scrutinee (← expr env scope scrutinee)
    return subject ++ text " switch" ++ [.arms (← switchArms env scope arms)]
  | .this => return text "this"

/-- The fragments of expressions, from left to right. -/
def exprs (env : Env) (scope : Scope) : List Expr → Gen (List Fragment)
  | [] => return []
  | e :: es => return (← expr env scope e) :: (← exprs env scope es)

/-- The fragment of an optional expression. -/
def exprOption (env : Env) (scope : Scope) : Option Expr → Gen (Option Fragment)
  | none => return none
  | some e => return some (← expr env scope e)

/-- A block whose last expression is its value; without one the value is null. -/
def valueBlock (env : Env) (scope : Scope) : List Stmt → Gen (List Code)
  | [] => return [.text "return null;"]
  | [.expr value] => return [.line (text "return " ++ (← expr env scope value) ++ text ";")]
  | [s] => do
    let code ← stmt env scope none s
    return if s.isReturn then code else code ++ [.text "return null;"]
  | s :: ss => return (← stmt env scope none s) ++ (← valueBlock env scope ss)

/-- The arms of a switch expression; a block becomes a closure that is called on the spot. -/
def switchArms (env : Env) (scope : Scope) : List MatchArm → Gen (List Fragment)
  | [] => return []
  | ⟨pattern, .expr value⟩ :: arms => do
    let selector ← armSelector env scope pattern
    let result ← expr env scope value
    return (selector ++ text " => " ++ result) :: (← switchArms env scope arms)
  | ⟨pattern, .block block⟩ :: arms => do
    let selector ← armSelector env scope pattern
    -- The type of the closure lives there.
    Gen.requireImport systemNamespace
    let code ← stmts env scope none block
    let closed := if Stmt.endsWithReturn block then code else code ++ [.text "return null;"]
    return (selector ++ text " => " ++ invoked closed) :: (← switchArms env scope arms)

/-- The pattern of an arm of a switch expression. -/
def armSelector (env : Env) (scope : Scope) : Pattern → Gen Fragment
  | .default => return text "_"
  | .values values => return Fragment.join " or " (← exprs env scope values)

/-- The code of a statement, inside the given loop. -/
def stmt (env : Env) (scope : Scope) (loop : Option LoopFrame) : Stmt → Gen (List Code)
  | .binding b => return [.line ((← binding env scope b) ++ text ";")]
  | .ifThen condition thenBranch elseBranch => do
    let header := text "if (" ++ (← expr env scope condition) ++ text ")"
    let body ← stmts env scope loop thenBranch
    return .block .plain header body "" :: (← elseChain env scope loop elseBranch)
  | .whileLoop condition body => do
    let header := text "while (" ++ (← expr env scope condition) ++ text ")"
    -- A loop is numbered after its header: loops in the header have the smaller numbers.
    let number ← Gen.freshLabel
    return loopCode number header (← stmts env scope (some ⟨number, false⟩) body)
  | .forLoop start condition step body => do
    let first ← forClause env scope start
    let second ← exprOption env scope condition
    let third ← exprOption env scope step
    let header := text "for (" ++ first ++ text ";" ++
      second.elim [] (text " " ++ ·) ++ text ";" ++ third.elim [] (text " " ++ ·) ++ text ")"
    let number ← Gen.freshLabel
    return loopCode number header (← stmts env scope (some ⟨number, false⟩) body)
  | .forEach name type (.range start stop inclusive) body => do
    let spelling ← mapTypeOr env scope "var" type
    let header ←
      if stop.isNone then do
        -- No sequence is endless, so the loop counts by itself.
        let first := (← exprOption env scope start).getD (text "0")
        pure (text ("for (" ++ spelling ++ " " ++ ident name ++ " = ") ++ first ++
          text ("; ; " ++ ident name ++ "++)"))
      else do
        let sequence ← indexSequence ⟨start, stop, inclusive⟩ (exprOption env scope start)
          (exprOption env scope stop)
        pure (text ("foreach (" ++ spelling ++ " " ++ ident name ++ " in ") ++ sequence ++
          text ")")
    let number ← Gen.freshLabel
    return loopCode number header (← stmts env scope (some ⟨number, false⟩) body)
  | .forEach name type iterable body => do
    let spelling ← mapTypeOr env scope "var" type
    let sequence ← expr env scope iterable
    let header := text ("foreach (" ++ spelling ++ " " ++ ident name ++ " in ") ++ sequence ++
      text ")"
    let number ← Gen.freshLabel
    return loopCode number header (← stmts env scope (some ⟨number, false⟩) body)
  | .ret none => return [.text "return;"]
  | .ret (some value) =>
    return [.line (text "return " ++ (← expr env scope value) ++ text ";")]
  | .breakLoop => return [.jump (leaveLoop loop)]
  | .continueLoop => return [.jump .nextRound]
  | .matchOn scrutinee arms => do
    let header := text "switch (" ++ (← expr env scope scrutinee) ++ text ")"
    let cases ← matchCases env scope (loop.map LoopFrame.enterSwitch) arms
    return [.block .switch header cases ""]
  | .expr (.matchOn scrutinee arms) => do
    let header := text "switch (" ++ (← expr env scope scrutinee) ++ text ")"
    let cases ← matchCases env scope (loop.map LoopFrame.enterSwitch) arms
    return [.block .switch header cases ""]
  | .switchOn subject cases => do
    let header := text "switch (" ++ (← expr env scope subject) ++ text ")"
    let code ← switchCases env scope (loop.map LoopFrame.enterSwitch) cases
    return [.block .switch header code ""]
  | .expr value => return [effectLine value (← expr env scope value)]
  | .raw block => target.rawCode block
  | .functionDecl _ decl => do
    return .separator ::
      (← function env scope { isLocal := true } (fun _ => return []) decl)
  | .typeDecl _ decl => Gen.fail (.typeInBody scope decl.name)
  | .enumDecl decl => Gen.fail (.typeInBody scope decl.name)
  | s => target.refuseInBody scope s

/-- The code of statements, inside the given loop. -/
def stmts (env : Env) (scope : Scope) (loop : Option LoopFrame) : List Stmt → Gen (List Code)
  | [] => return []
  | s :: ss => return (← stmt env scope loop s) ++ (← stmts env scope loop ss)

/-- A variable without its semicolon; the value is written before the type is looked up. -/
def binding (env : Env) (scope : Scope) : Binding → Gen Fragment
  | ⟨name, type, value, mutability⟩ => do
    let rendered ← exprOption env scope value
    let spelling ← type.mapM (mapType env scope)
    return variableText mutability (ident name) spelling rendered

/-- The first clause of a counted loop. -/
def forClause (env : Env) (scope : Scope) : Option Stmt → Gen Fragment
  | none => return []
  | some (.binding b) => binding env scope b
  | some (.expr value) => expr env scope value
  | some s => do
    Gen.report (.noLoopStart s)
    return []

/-- The branches behind an `if`; a lone `if` in an else branch continues the chain. -/
def elseChain (env : Env) (scope : Scope) (loop : Option LoopFrame) :
    Option (List Stmt) → Gen (List Code)
  | none => return []
  | some [.ifThen condition thenBranch elseBranch] => do
    let header := text "else if (" ++ (← expr env scope condition) ++ text ")"
    let body ← stmts env scope loop thenBranch
    return .block .plain header body "" :: (← elseChain env scope loop elseBranch)
  | some block => return [.block .plain (text "else") (← stmts env scope loop block) ""]

/-- The labels of a case. -/
def caseLabels (env : Env) (scope : Scope) : Pattern → Gen (List Code)
  | .default => return [.text "default:"]
  | .values values =>
    return (← exprs env scope values).map fun v => .line (text "case " ++ v ++ text ":")

/-- The arms of a match as cases of a switch statement. -/
def matchCases (env : Env) (scope : Scope) (loop : Option LoopFrame) :
    List MatchArm → Gen (List Code)
  | [] => return []
  | ⟨pattern, .expr value⟩ :: arms => do
    let labels ← caseLabels env scope pattern
    let body := [effectLine value (← expr env scope value), .jump .endCase]
    return labels ++ .indented body :: (← matchCases env scope loop arms)
  | ⟨pattern, .block block⟩ :: arms => do
    let labels ← caseLabels env scope pattern
    let body := caseBlock block (← stmts env scope loop block)
    return labels ++ .indented body :: (← matchCases env scope loop arms)

/-- The cases of a switch statement. -/
def switchCases (env : Env) (scope : Scope) (loop : Option LoopFrame) :
    List SwitchCase → Gen (List Code)
  | [] => return []
  | ⟨pattern, block⟩ :: cases => do
    let labels ← caseLabels env scope pattern
    let body := caseBlock block (← stmts env scope loop block)
    return labels ++ .indented body :: (← switchCases env scope loop cases)

/-- The lines of all attributes that are no markers. -/
def attributeLines (env : Env) (scope : Scope) : List Attribute → Gen (List Code)
  | [] => return []
  | ⟨name, args⟩ :: attributes => do
    if (Marker.ofName? name).isSome then attributeLines env scope attributes
    else
      let rendered ← exprs env scope args
      let shown :=
        if args.isEmpty then [] else text "(" ++ Fragment.join ", " rendered ++ text ")"
      return .line (text ("[" ++ name) ++ shown ++ text "]") ::
        (← attributeLines env scope attributes)

/-- The parameters of a function. -/
def parameters (env : Env) (scope : Scope) : List Parameter → Gen (List Fragment)
  | [] => return []
  | ⟨name, type, default⟩ :: params => do
    let spelling ← mapTypeOr env scope untyped type
    let value ← exprOption env scope default
    let shown := text (spelling ++ " " ++ ident name) ++ value.elim [] (text " = " ++ ·)
    return shown :: (← parameters env scope params)

/-- A function, method or constructor; `prologue` is written ahead of its own body. -/
def function (env : Env) (scope : Scope) (options : FunctionOptions)
    (prologue : Scope → Gen (List Code)) : Function → Gen (List Code)
  | ⟨name, params, returnType, generics, modifiers, attributes, body, isConstructor, isStatic⟩ => do
    if ← target.skipMarked (if isConstructor then "constructor" else "function") name
        attributes then
      return []
    if Text.hasChar '.' name then
      Gen.report (.qualifiedFunction name)
      return []
    -- What stands in a static scope is static, but no constructor and nothing in an interface is.
    let makeStatic := !isConstructor && !scope.inInterface &&
      (isStatic || scope.inStatic || options.forceStatic)
    let inner := { scope with functionGenerics := generics, inStatic := makeStatic }
    let lines ← attributeLines env inner attributes
    let shown := Fragment.join ", " (← parameters env inner params)
    let words :=
      if options.isLocal then "" else modifierText modifiers .publicAccess makeStatic scope
    let head ←
      if isConstructor then
        pure (text (words ++ ident (scope.className.getD name) ++ "(") ++ shown ++ text ")")
      else do
        let returns ←
          match options.returns with
          | some returns => pure returns
          | none => returnSpelling env inner returnType body
        let clauses ← whereClauses env inner generics
        pure (text (words ++ returns ++ " " ++ ident (options.name.getD name) ++
          genericList generics ++ "(") ++ shown ++ text (")" ++ clauses))
    let code ← functionBody env
      { inner with inConstructor := scope.inConstructor || isConstructor } prologue head body
    return lines ++ code

/-- The body of a function behind its head; without a body there is only the head. -/
def functionBody (env : Env) (scope : Scope) (prologue : Scope → Gen (List Code))
    (head : Fragment) : Option (List Stmt) → Gen (List Code)
  | none => return [.line (head ++ text ";")]
  | some body => do
    let before ← prologue scope
    return [.block .function head (before ++ (← stmts env scope none body)) ""]

end

end CSharp

end SourceGen
