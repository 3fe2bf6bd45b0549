import SourceGen.Emit.Emitter
import SourceGen.Rust.Body

/-!
# Emitting Rust bodies

Expressions, statements and functions in Rust, written by an emitter. An expression is rendered to
text with the margins of the place where it stands; a statement goes line by line into the buffer.

## Main definitions

* `Rust.emitExpr`: the text of an expression.
* `Rust.emitStmt`, `Rust.emitStmts`: writes statements.
* `Rust.emitFunction`: writes a function or method.
-/

namespace SourceGen

namespace Rust

/-! ### Expressions without their parts -/

/-- The text of an expression as an operand. -/
def groupedSpelling (e : Expr) (s : String) : String :=
  if needsParens e then "(" ++ s ++ ")" else s

/-- The text of an expression where its value is owned. -/
def ownedSpelling (e : Expr) (s : String) : String :=
  if e.isStringLiteral then s ++ ".to_string()" else s

/-- The text between parentheses, unless it is a plain path or chain of calls. -/
def chainableSpelling (s : String) : String :=
  if s.toList.all isPathChar then s else "(" ++ s ++ ")"

/-- An operator in front of or behind its operand. An increment or decrement is a block with the
value before or after it. -/
def unarySpelling (op : Token) (trailing : Bool) (inner : String) : String :=
  if isStepOp op then
    if trailing then
      "\x7b let __prev = " ++ inner ++ "; " ++ inner ++ stepOp op ++ "; __prev \x7d"
    else "\x7b " ++ inner ++ stepOp op ++ "; " ++ inner ++ " \x7d"
  else if op = .plus then inner
  else unaryOp op ++ inner

/-- An operator between its operands. -/
def binarySpelling (left : Expr) (op : Token) (l r : String) : String :=
  if op = .starStar then chainableSpelling l ++ ".pow(" ++ r ++ " as u32)"
  else if op = .questionQuestion then l ++ ".unwrap_or(" ++ r ++ ")"
  else if op = .plus ∧ left.isStringLiteral then l ++ ".to_string() + " ++ r
  else l ++ " " ++ binaryOp op ++ " " ++ r

/-- A call of a builtin under its Rust name. -/
def builtinSpelling (fn : Builtin) (argCount : Nat) (args : String) : String :=
  match fn with
  | .print =>
    if argCount = 0 then "println!()"
    else
      "println!(\"" ++ Text.join " " (List.replicate argCount "\x7b\x7d") ++ "\", " ++ args ++ ")"
  | .len => chainableSpelling args ++ ".len()"
  | .str => chainableSpelling args ++ ".to_string()"
  | .abs => "(" ++ args ++ ")" ++ ".abs()"
  | .min => "std::cmp::min(" ++ args ++ ")"
  | .max => "std::cmp::max(" ++ args ++ ")"
  | .sqrt => "(" ++ args ++ " as f64).sqrt()"

/-- A vector, with its element type if it has one. -/
def emitArray (env : Env) (scope : Scope) (isEmpty : Bool) (items : String)
    (elementType : Option TypeRef) : Emit String := do
  match elementType with
  | some type =>
    let spelling ← mapType env.known scope type
    if isEmpty then return "Vec::<" ++ spelling ++ ">::new()"
    else return "Vec::<" ++ spelling ++ ">::from([" ++ items ++ "])"
  | none =>
    if isEmpty then return "Vec::new()" else return "vec![" ++ items ++ "]"

/-- What a match looks at; string patterns are compared with borrowed text. -/
def subjectSpelling (e : Expr) (patterns : List Pattern) (s : String) : String :=
  if Pattern.anyString patterns then "&*" ++ groupedSpelling e s else groupedSpelling e s

/-- Code between braces, as a part of a line. -/
def emitBraced (body : Emit Unit) : Emit String := do
  let inner ← Emit.capture body
  return "\x7b\n" ++ inner ++ (← Emit.fragmentIndent) ++ "\x7d"

/-- The arms of a match expression between braces, each on a line of its own; an arm for everything
else is added if there is none. -/
def emitArms (subject : String) (patterns : List Pattern) (arms : Emit (List String)) :
    Emit String := do
  let closeIndent ← Emit.fragmentIndent
  let armIndent ← Emit.look (Emitter.margin 1)
  let shown ← Emit.deeper arms
  let rest := if Pattern.anyDefault patterns then [] else ["_ => unreachable!()"]
  let lines := String.join ((shown ++ rest).map fun arm => armIndent ++ arm ++ ",\n")
  return "match " ++ subject ++ " \x7b\n" ++ lines ++ closeIndent ++ "\x7d"

/-! ### Statements without their parts -/

/-- The value of a return; a field is cloned out of the object. -/
def returnedSpelling (e : Expr) (s : String) : String :=
  match e with
  | .member object _ =>
    if object.rootedInThis then ownedSpelling e s ++ ".clone()" else ownedSpelling e s
  | _ => ownedSpelling e s

/-- What a loop iterates over; a collection is cloned so that it stays usable. -/
def iteratedSpelling (e : Expr) (s : String) : String :=
  match e with
  | .ident _ | .member _ _ => s ++ ".clone()"
  | _ => s

/-- A counted loop behind its first clause. The body is labelled if a `continue` in it has to leave
it ahead of the step. -/
def emitCountedLoop (header : Emit String) (labelled : Bool) (body : Option Nat → Emit Unit)
    (step : Emit Unit) : Emit Unit := do
  let shown ← header
  Emit.openBlock shown
  if labelled then do
    let label ← Gen.freshLabel
    Emit.openBlock ("'body_" ++ toString label ++ ":")
    body (some label)
    Emit.closeBlock ""
  else body none
  step
  Emit.closeBlock ""

/-- A multi-way branch; an arm for everything else is added if there is none. -/
def emitMatch (subject : String) (patterns : List Pattern) (arms : Emit Unit) : Emit Unit := do
  Emit.openBlock ("match " ++ subject)
  arms
  Emit.lineUnless (Pattern.anyDefault patterns) "_ => \x7b\x7d"
  Emit.closeBlock ""

/-! ### The mutual family -/

mutual

/-- The text of an expression. -/
def emitExpr (env : Env) (place : Place) (position : Position) : Expr → Emit String
  | .literal value => return literal value
  | .ident name => return ident name
  | .path parts => return path parts
  | .member object name =>
    match typeName? env object with
    | some type => return ident type ++ "::" ++ ident name
    | none => do
      return groupedSpelling object (← emitExpr env place .value object) ++ "." ++ ident name
  | .index object i => do
    let object' := groupedSpelling object (← emitExpr env place .value object)
    return object' ++ "[" ++ (← emitExpr env place .value i) ++ "]"
  | .binary left op right => do
    let l := groupedSpelling left (← emitExpr env place .value left)
    let r := groupedSpelling right (← emitExpr env place .value right)
    return binarySpelling left op l r
  | .unary op operand trailing => do
    let inner ← emitExpr env place .value operand
    if position = .statement ∧ isStepOp op then return inner ++ stepOp op
    else return unarySpelling op trailing (groupedSpelling operand inner)
  | .assign target op value => do
    let left ← emitExpr env place .value target
    return left ++ " " ++ binaryOp op ++ " " ++ (← emitExpr env place .value value)
  | .call (.ident name) args =>
    match Callee.of (.ident name) with
    | .builtin fn _ => do
      return builtinSpelling fn args.length (Text.join ", " (← emitExprs env place args))
    | _ => do
      let rendered := Text.join ", " (← emitOwnedExprs env place args)
      return ident name ++ "(" ++ rendered ++ ")"
  | .call (.path parts) args => do
    let rendered := Text.join ", " (← emitOwnedExprs env place args)
    return path parts ++ "(" ++ rendered ++ ")"
  | .call (.member receiver name) args => do
    let head ←
      match typeName? env receiver with
      | some type => pure (ident type ++ "::" ++ ident name ++ "(")
      | none =>
        pure (groupedSpelling receiver (← emitExpr env place .value receiver) ++ "." ++
          ident name ++ "(")
    let rendered := Text.join ", " (← emitOwnedExprs env place args)
    return head ++ rendered ++ ")"
  | .call callee args => do
    let head ← emitExpr env place .value callee
    let rendered := Text.join ", " (← emitOwnedExprs env place args)
    return "(" ++ head ++ ")" ++ "(" ++ rendered ++ ")"
  | .construct type args => do
    let spelling ← mapType env.known place.toScope type
    let rendered := Text.join ", " (← emitOwnedExprs env place args)
    return associated spelling ++ "::new(" ++ rendered ++ ")"
  | .array elements elementType => do
    let items := Text.join ", " (← emitOwnedExprs env place elements)
    emitArray env place.toScope elements.isEmpty items elementType
  | .lambda params (.expr value) => do
    let head ← lambdaHead env place.toScope params
    return head ++ " " ++ (← emitExpr env place.closure .value value)
  | .lambda params (.block block) => do
    let head ← lambdaHead env place.toScope params
    return head ++ " " ++ (← emitBraced (emitStmts env place.closure block))
  | .range start stop inclusive => do
    let first := (← emitOperandOption env place start).getD "0"
    let last ← emitOperandOption env place stop
    match last with
    | some last => return first ++ (if inclusive then "..=" else "..") ++ last
    | none => return first ++ ".."
  | .block block => emitBraced (emitValueBlock env place block)
  | .matchOn scrutinee arms => do
    let patterns := arms.map (·.pattern)
    let subject := subjectSpelling scrutinee patterns (← emitExpr env place .value scrutinee)
    emitArms subject patterns (emitMatchArms env place arms)
  | .this => return if place.inConstructor then "instance" else "self"

/-- The texts of expressions, from left to right. -/
def emitExprs (env : Env) (place : Place) : List Expr → Emit (List String)
  | [] => return []
  | e :: es => return (← emitExpr env place .value e) :: (← emitExprs env place es)

/-- The texts of expressions whose values are owned, from left to right. -/
def emitOwnedExprs (env : Env) (place : Place) : List Expr → Emit (List String)
  | [] => return []
  | e :: es =>
    return ownedSpelling e (← emitExpr env place .value e) :: (← emitOwnedExprs env place es)

/-- The text of an optional operand. -/
def emitOperandOption (env : Env) (place : Place) : Option Expr → Emit (Option String)
  | none => return none
  | some e => return some (groupedSpelling e (← emitExpr env place .value e))

/-- The text of an optional expression whose value is owned. -/
def emitOwnedOption (env : Env) (place : Place) : Option Expr → Emit (Option String)
  | none => return none
  | some e => return some (ownedSpelling e (← emitExpr env place .value e))

/-- Writes a block whose last expression is its value; a step has no value of its own. -/
def emitValueBlock (env : Env) (place : Place) : List Stmt → Emit Unit
  | [] => return
  | [.expr value] => do
    if isStep value then
      let shown ← emitExpr env place .statement value
      Emit.line (shown ++ ";")
    else
      let shown ← emitExpr env place .value value
      Emit.line shown
  | s :: ss => do
    emitStmt env place s
    emitValueBlock env place ss

/-- The arms of a match expression; a block becomes a closure that is called on the spot. -/
def emitMatchArms (env : Env) (place : Place) : List MatchArm → Emit (List String)
  | [] => return []
  | ⟨pattern, .expr value⟩ :: arms => do
    let selector ← emitPattern env place pattern
    let result := ownedSpelling value (← emitExpr env place .value value)
    return (selector ++ " => " ++ result) :: (← emitMatchArms env place arms)
  | ⟨pattern, .block block⟩ :: arms => do
    let selector ← emitPattern env place pattern
    let result ← emitBraced do
      emitStmts env place.closure block
      Emit.lineUnless (Stmt.endsWithReturn block) "return Default::default();"
    return (selector ++ " => (|| " ++ result ++ ")()") :: (← emitMatchArms env place arms)

/-- The pattern of an arm. -/
def emitPattern (env : Env) (place : Place) : Pattern → Emit String
  | .default => return "_"
  | .values values => return Text.join " | " (← emitExprs env place values)

/-- Writes a statement. -/
def emitStmt (env : Env) (place : Place) : Stmt → Emit Unit
  | .binding b => do
    let shown ← emitBinding env place false b
    Emit.line (shown ++ ";")
  | .ifThen condition thenBranch elseBranch => do
    let shown ← emitExpr env place .value condition
    Emit.openBlock ("if " ++ shown)
    emitStmts env place thenBranch
    emitElseChain env place elseBranch
    Emit.closeBlock ""
  | .whileLoop condition body => do
    let shown ← emitExpr env place .value condition
    Emit.openBlock ("while " ++ shown)
    emitStmts env (place.inLoop none) body
    Emit.closeBlock ""
  | .forLoop start condition step body => do
    Emit.openBraces start.isSome
    emitForClause env place start
    emitCountedLoop (emitLoopHeader env place condition) (step.isSome && Stmt.anyContinues body)
      (fun label => emitStmts env (place.inLoop label) body) (emitStep env place step)
    Emit.closeBraces start.isSome
  | .forEach name _ iterable body => do
    let collection := iteratedSpelling iterable (← emitExpr env place .value iterable)
    Emit.openBlock ("for " ++ ident name ++ " in " ++ collection)
    emitStmts env (place.inLoop none) body
    Emit.closeBlock ""
  | .ret none => Emit.line "return;"
  | .ret (some value) => do
    let shown := returnedSpelling value (← emitExpr env place .value value)
    Emit.line ("return " ++ shown ++ ";")
  | .breakLoop => Emit.line "break;"
  | .continueLoop => Emit.line (nextRound place.continueLabel).text
  | .matchOn scrutinee arms => do
    let patterns := arms.map (·.pattern)
    let subject := subjectSpelling scrutinee patterns (← emitExpr env place .value scrutinee)
    emitMatch subject patterns (emitMatchCases env place arms)
  | .expr (.matchOn scrutinee arms) => do
    let patterns := arms.map (·.pattern)
    let subject := subjectSpelling scrutinee patterns (← emitExpr env place .value scrutinee)
    emitMatch subject patterns (emitMatchCases env place arms)
  | .switchOn subject cases => do
    let patterns := cases.map (·.pattern)
    let subject := subjectSpelling subject patterns (← emitExpr env place .value subject)
    emitMatch subject patterns (emitSwitchCases env place cases)
  | .expr value => do
    let shown ← emitExpr env place .statement value
    Emit.line (shown ++ ";")
  | .raw block => target.emitRaw block
  | .functionDecl _ decl => do
    Emit.separator
    emitFunction env place.closure { visibility := "" } (fun _ => return) decl
  | .typeDecl _ decl => Gen.fail (.typeInBody place.toScope decl.name)
  | .enumDecl decl => Gen.fail (.typeInBody place.toScope decl.name)
  | s => target.emitRefusal place.toScope s

/-- Writes statements. -/
def emitStmts (env : Env) (place : Place) : List Stmt → Emit Unit
  | [] => return
  | s :: ss => do
    emitStmt env place s
    emitStmts env place ss

/-- A variable without its semicolon. -/
def emitBinding (env : Env) (place : Place) (forceMutable : Bool) : Binding → Emit String
  | ⟨name, type, value, mutability⟩ => do
    let keyword := if forceMutable || mutability = .mutable then "let mut " else "let "
    let spelling ← (type.mapM (mapType env.known place.toScope) : Gen (Option String))
    let rendered ← emitOwnedOption env place value
    return keyword ++ ident name ++ spelling.elim "" (": " ++ ·) ++ rendered.elim "" (" = " ++ ·)

/-- Writes the first clause of a counted loop. -/
def emitForClause (env : Env) (place : Place) : Option Stmt → Emit Unit
  | none => return
  | some (.binding b) => do
    let shown ← emitBinding env place true b
    Emit.line (shown ++ ";")
  | some (.expr value) => do
    let shown ← emitExpr env place .statement value
    Emit.line (shown ++ ";")
  | some s => Gen.report (.noLoopStart s)

/-- The header of a counted loop. -/
def emitLoopHeader (env : Env) (place : Place) : Option Expr → Emit String
  | none => return "loop"
  | some condition => return "while " ++ (← emitExpr env place .value condition)

/-- Writes the step of a counted loop. -/
def emitStep (env : Env) (place : Place) : Option Expr → Emit Unit
  | none => return
  | some step => do
    let shown ← emitExpr env place .statement step
    Emit.line (shown ++ ";")

/-- Writes the branches behind an `if`, each from the end of the one before: the line that closes
that one stands one level higher. The last one is left open. -/
def emitElseChain (env : Env) (place : Place) : Option (List Stmt) → Emit Unit
  | none => return
  | some [.ifThen condition thenBranch elseBranch] => do
    Emit.dedent
    let shown ← emitExpr env place .value condition
    Emit.line ("\x7d else if " ++ shown ++ " \x7b")
    Emit.indent
    emitStmts env place thenBranch
    emitElseChain env place elseBranch
  | some block => do
    Emit.dedent
    Emit.line "\x7d else \x7b"
    Emit.indent
    emitStmts env place block

/-- Writes the arms of a match statement. -/
def emitMatchCases (env : Env) (place : Place) : List MatchArm → Emit Unit
  | [] => return
  | ⟨pattern, .expr value⟩ :: arms => do
    let selector ← emitPattern env place pattern
    let shown ← emitExpr env place .statement value
    Emit.line (selector ++ " => \x7b")
    Emit.indent
    Emit.line (shown ++ ";")
    Emit.closeBlock ""
    emitMatchCases env place arms
  | ⟨pattern, .block block⟩ :: arms => do
    let selector ← emitPattern env place pattern
    Emit.openBlock (selector ++ " =>")
    emitStmts env place block
    Emit.closeBlock ""
    emitMatchCases env place arms

/-- Writes the cases of a switch as arms of a match statement. -/
def emitSwitchCases (env : Env) (place : Place) : List SwitchCase → Emit Unit
  | [] => return
  | ⟨pattern, block⟩ :: cases => do
    let selector ← emitPattern env place pattern
    Emit.openBlock (selector ++ " =>")
    emitStmts env place block
    Emit.closeBlock ""
    emitSwitchCases env place cases

/-- Writes the attributes that are no markers; one that means nothing in Rust becomes a comment. -/
def emitAttributes (env : Env) (place : Place) : List Attribute → Emit Unit
  | [] => return
  | ⟨name, args⟩ :: attributes => do
    if (Marker.ofName? name).isSome then emitAttributes env place attributes
    else
      let rendered ← emitExprs env place args
      let shown := if args.isEmpty then "" else "(" ++ Text.join ", " rendered ++ ")"
      if knownAttributes.contains name then
        Emit.line ("#[" ++ name ++ shown ++ "]")
        emitAttributes env place attributes
      else
        Gen.report ((Diagnostic.info ("attribute `" ++ name ++
          "` has no Rust equivalent; kept as a comment")).withContext target.id)
        Emit.comment ("@" ++ name ++ shown)
        emitAttributes env place attributes

/-- Writes a function or method; `prologue` is written ahead of its own body. -/
def emitFunction (env : Env) (place : Place) (options : FunctionOptions)
    (prologue : Place → Emit Unit) : Function → Emit Unit
  | ⟨name, params, returnType, generics, _, attributes, body, _, _⟩ => do
    if ← target.skipMarked "function" name attributes then
      return
    if Text.hasChar '.' name then
      Gen.report (.qualifiedFunction name)
      return
    let inner : Place :=
      { place with functionGenerics := generics, inStatic := options.receiver = .none }
    emitAttributes env inner attributes
    let own ← parameters env inner.toScope params
    let returns ←
      match options.returns with
      | some returns => pure returns
      | none => returnSpelling env inner.toScope name returnType body
    let bounds ← genericParams env inner.toScope generics
    let head := options.visibility ++ "fn " ++ ident (options.name.getD name) ++ bounds ++ "(" ++
      Text.join ", " (options.receiver.params ++ own) ++ ")" ++ returnClause returns
    emitFunctionBody env inner options.requireBody prologue head body

/-- Writes the body of a function behind its head. -/
def emitFunctionBody (env : Env) (place : Place) (requireBody : Bool)
    (prologue : Place → Emit Unit) (head : String) : Option (List Stmt) → Emit Unit
  | none =>
    if requireBody then do
      Emit.openBlock head
      Emit.line "unimplemented!()"
      Emit.closeBlock ""
    else Emit.line (head ++ ";")
  | some body => do
    Emit.openBlock head
    prologue place
    emitStmts env place body
    Emit.closeBlock ""

end

end Rust

end SourceGen
