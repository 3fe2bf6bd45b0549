import SourceGen.Analysis.Arms
import SourceGen.Analysis.Callee
import SourceGen.Analysis.Flow
import SourceGen.Layout.Code
import SourceGen.Omission
import SourceGen.Rust.Trait
import SourceGen.Rust.Types

/-!
# Rust bodies

Expressions, statements and functions in Rust. An expression becomes a fragment, a statement becomes
code. Where a value is owned, a string literal is converted. A counted loop becomes a `while` with
its step at the end; a `continue` in it leaves a labelled body, so that the step still runs.

## Main definitions

* `Rust.Place`: the surroundings of a piece of code.
* `Rust.expr`: the fragment of an expression.
* `Rust.stmt`, `Rust.stmts`: the code of statements.
* `Rust.function`: the code of a function or method.
-/

namespace SourceGen

namespace Rust

open Fragment (text)

/-- What stays fixed while a unit is written. -/
structure Env where
  config : Config
  known : KnownTypes
  traits : Traits

/-- The surroundings of a piece of code. -/
structure Place extends Scope where
  /-- The labelled loop body that a `continue` leaves. -/
  continueLabel : Option Nat := none

namespace Place

/-- The place inside a closure or a function, which no label reaches into. -/
def closure (place : Place) : Place :=
  { place with continueLabel := none }

/-- The place inside a loop body. -/
def inLoop (place : Place) (label : Option Nat) : Place :=
  { place with continueLabel := label }

/-- The place of the members of a type. -/
def ofType (name : String) (generics : List GenericParam) : Place :=
  { Scope.ofType name generics with }

end Place

/-- Whether an expression is written for its value or as a statement. -/
inductive Position where
  | value | statement
  deriving DecidableEq, Repr

/-! ### Expressions without their parts -/

/-- The operand needs parentheses to keep the grouping of the tree. -/
def needsParens : Expr → Bool
  | .binary _ _ _ | .assign _ _ _ | .lambda _ _ | .range _ _ _ | .unary _ _ _ => true
  | _ => false

/-- The fragment of an expression as an operand. -/
def grouped (e : Expr) (f : Fragment) : Fragment :=
  if needsParens e then f.parens else f

/-- The fragment of an expression where its value is owned. -/
def owned (e : Expr) (f : Fragment) : Fragment :=
  if e.isStringLiteral then f ++ text ".to_string()" else f

/-- The fragment between parentheses, unless it is a plain path or chain of calls. -/
def chainable (f : Fragment) : Fragment :=
  if f.allChars isPathChar then f else f.parens

/-- The token is an increment or a decrement. -/
def isStepOp (op : Token) : Bool :=
  op == .plusPlus || op == .minusMinus

/-- The expression is an increment or a decrement. -/
def isStep : Expr → Bool
  | .unary op _ _ => isStepOp op
  | _ => false

/-- The compound assignment of an increment or a decrement. -/
def stepOp (op : Token) : String :=
  if op = .plusPlus then " += 1" else " -= 1"

/-- An operator in front of or behind its operand. An increment or decrement is a block with the
value before or after it. -/
def unaryText (op : Token) (trailing : Bool) (inner : Fragment) : Fragment :=
  if isStepOp op then
    if trailing then
      text "\x7b let __prev = " ++ inner ++ text "; " ++ inner ++ text (stepOp op) ++
        text "; __prev \x7d"
    else
      text "\x7b " ++ inner ++ text (stepOp op) ++ text "; " ++ inner ++ text " \x7d"
  else if op = .plus then inner
  else text (unaryOp op) ++ inner

/-- An operator between its operands. -/
def binaryText (left : Expr) (op : Token) (l r : Fragment) : Fragment :=
  if op = .starStar then chainable l ++ text ".pow(" ++ r ++ text " as u32)"
  else if op = .questionQuestion then l ++ text ".unwrap_or(" ++ r ++ text ")"
  else if op = .plus ∧ left.isStringLiteral then l ++ text ".to_string() + " ++ r
  else l ++ text (" " ++ binaryOp op ++ " ") ++ r

/-- A call of a builtin under its Rust name. -/
def builtinCall (fn : Builtin) (argCount : Nat) (args : Fragment) : Fragment :=
  match fn with
  | .print =>
    if argCount = 0 then text "println!()"
    else
      let holes := Text.join " " (List.replicate argCount "\x7b\x7d")
      text ("println!(\"" ++ holes ++ "\", ") ++ args ++ text ")"
  | .len => chainable args ++ text ".len()"
  | .str => chainable args ++ text ".to_string()"
  | .abs => args.parens ++ text ".abs()"
  | .min => text "std::cmp::min(" ++ args ++ text ")"
  | .max => text "std::cmp::max(" ++ args ++ text ")"
  | .sqrt => text "(" ++ args ++ text " as f64).sqrt()"

/-- The name of a type that the unit declares, if the expression is one. -/
def typeName? (env : Env) : Expr → Option String
  | .ident name => if env.known.contains name then some name else none
  | _ => none

/-- The parameters of a lambda. -/
def lambdaHead (env : Env) (scope : Scope) (params : List Parameter) : Gen String := do
  let shown ← params.mapM fun p =>
    match p.type with
    | some type => return ident p.name ++ ": " ++ (← mapType env.known scope type)
    | none => return ident p.name
  return "|" ++ Text.join ", " shown ++ "|"

/-- A vector, with its element type if it has one. -/
def arrayLiteral (env : Env) (scope : Scope) (isEmpty : Bool) (items : Fragment)
    (elementType : Option TypeRef) : Gen Fragment := do
  match elementType with
  | some type =>
    let spelling ← mapType env.known scope type
    if isEmpty then return text ("Vec::<" ++ spelling ++ ">::new()")
    else return text ("Vec::<" ++ spelling ++ ">::from([") ++ items ++ text "])"
  | none =>
    if isEmpty then return text "Vec::new()" else return text "vec![" ++ items ++ text "]"

/-- What a match looks at; string patterns are compared with borrowed text. -/
def subjectText (e : Expr) (patterns : List Pattern) (f : Fragment) : Fragment :=
  if Pattern.anyString patterns then text "&*" ++ grouped e f else grouped e f

/-! ### Statements without their parts -/

/-- How a statement goes to the next round of the innermost loop. -/
def nextRound : Option Nat → Jump
  | some label => .leaveBody label
  | none => .nextRound

/-- The value of a return; a field is cloned out of the object. -/
def returned (e : Expr) (f : Fragment) : Fragment :=
  match e with
  | .member object _ => if object.rootedInThis then owned e f ++ text ".clone()" else owned e f
  | _ => owned e f

/-- What a loop iterates over; a collection is cloned so that it stays usable. -/
def iterated (e : Expr) (f : Fragment) : Fragment :=
  match e with
  | .ident _ | .member _ _ => f ++ text ".clone()"
  | _ => f

/-- A multi-way branch; an arm for everything else is added if there is none. -/
def matchCode (subject : Fragment) (patterns : List Pattern) (arms : List Code) : Code :=
  let rest := if Pattern.anyDefault patterns then [] else [Code.text "_ => \x7b\x7d"]
  .block .switch (text "match " ++ subject) (arms ++ rest) ""

/-! ### Declarations without their parts -/

/-- The attributes that are written as such; others are kept as comments. -/
def knownAttributes : List String :=
  ["derive", "inline", "allow", "cfg", "test", "must_use", "deprecated", "repr"]

/-- The visibility of a declaration by its first access modifier. -/
def visibility (modifiers : List Modifier) (defaultPublic : Bool) : String :=
  match modifiers.find? Modifier.isAccess with
  | some .publicAccess => "pub "
  | some .protectedAccess | some .internalAccess => "pub(crate) "
  | some _ => ""
  | none => if defaultPublic then "pub " else ""

/-- The type that a literal has. -/
def literalType? : Literal → Option String
  | .number digits =>
    let isFloat := !Text.startsWith digits "0x" &&
      digits.toList.any fun c => c == '.' || c == 'e' || c == 'E'
    some (if isFloat then "f64" else "i64")
  | .string _ => some "String"
  | .bool _ => some "bool"
  | .char _ => some "char"
  | .null => none

/-- The type of something without a declared type: that of its literal value, else the catch-all
with a warning. -/
def inferredType (name : String) (value : Option Expr) : Gen String :=
  let found :=
    match value with
    | some (.literal l) => literalType? l
    | _ => none
  match found with
  | some type => return type
  | none => do
    Gen.report ((Diagnostic.warning ("`" ++ name ++ "` has no declared type; using `" ++ catchAll ++
      "`")).withContext target.id)
    return catchAll

/-- The declared type, or the one of the value. -/
def typeOr (env : Env) (scope : Scope) (name : String) (type : Option TypeRef)
    (value : Option Expr) : Gen String :=
  match type with
  | some type => mapType env.known scope type
  | none => inferredType name value

/-- The parameters of a function; there are no default values. -/
def parameters (env : Env) (scope : Scope) : List Parameter → Gen (List String)
  | [] => return []
  | p :: ps => do
    let type ← typeOr env scope p.name p.type p.default
    if p.default.isSome then
      Gen.report ((Diagnostic.info ("default value of parameter `" ++ p.name ++
        "` dropped")).withNote "Rust has no default arguments")
    return (ident p.name ++ ": " ++ type) :: (← parameters env scope ps)

/-- The names of generic parameters between angle brackets. -/
def genericArgs (generics : List GenericParam) : String :=
  Text.angled (generics.map (·.name))

/-- Generic parameters with their bounds between angle brackets. -/
def genericParams (env : Env) (scope : Scope) (generics : List GenericParam) : Gen String := do
  let shown ← generics.mapM fun g => do
    if g.constraints.isEmpty then return g.name
    else return g.name ++ ": " ++ Text.join " + " (← mapTypes env.known scope g.constraints)
  return Text.angled shown

/-- The declared return type; a body that returns a value without declaring a type gets the
catch-all with a warning. -/
def returnSpelling (env : Env) (scope : Scope) (name : String) (declared : Option TypeRef)
    (body : Option (List Stmt)) : Gen String :=
  match declared with
  | some type => mapType env.known scope type
  | none =>
    if body.any Stmt.anyReturnsValue then do
      Gen.report ((Diagnostic.warning ("`" ++ name ++
        "` returns a value but declares no return type; using `" ++ catchAll ++ "`")).withContext
        (scope.className.getD target.id))
      return catchAll
    else return unitType

/-- The return clause for a return type. -/
def returnClause (type : String) : String :=
  if type == unitType then "" else " -> " ++ type

/-- How a function is written besides what it declares. -/
structure FunctionOptions where
  /-- Written in place of the declared name. -/
  name : Option String := none
  /-- Written in place of the declared or inferred return type. -/
  returns : Option String := none
  visibility : String := "pub "
  receiver : Receiver := .none
  /-- A function without a body gets one that stops the program. -/
  requireBody : Bool := true

/-! ### The mutual family -/

mutual

/-- The fragment of an expression. -/
def expr (env : Env) (place : Place) (position : Position) : Expr → Gen Fragment
  | .literal value => return text (literal value)
  | .ident name => return text (ident name)
  | .path parts => return text (path parts)
  | .member object name =>
    -- A member of a type is reached by a path, a member of a value by a dot.
    match typeName? env object with
    | some type => return text (ident type ++ "::" ++ ident name)
    | none => return grouped object (← expr env place .value object) ++ text ("." ++ ident name)
  | .index object i => do
    let object' := grouped object (← expr env place .value object)
    return object' ++ text "[" ++ (← expr env place .value i) ++ text "]"
  | .binary left op right => do
    let l := grouped left (← expr env place .value left)
    let r := grouped right (← expr env place .value right)
    return binaryText left op l r
  | .unary op operand trailing => do
    let inner ← expr env place .value operand
    -- As a statement a step needs no block around it, whichever side its operator is on.
    if position = .statement ∧ isStepOp op then return inner ++ text (stepOp op)
    else return unaryText op trailing (grouped operand inner)
  | .assign target op value => do
    let left ← expr env place .value target
    return left ++ text (" " ++ binaryOp op ++ " ") ++ (← expr env place .value value)
  | .call (.ident name) args =>
    match Callee.of (.ident name) with
    | .builtin fn _ => do
      -- Builtins borrow their arguments, so string literals stay as they are.
      return builtinCall fn args.length (Fragment.join ", " (← exprs env place args))
    | _ => do
      let rendered := Fragment.join ", " (← ownedExprs env place args)
      return text (ident name ++ "(") ++ rendered ++ text ")"
  | .call (.path parts) args => do
    let rendered := Fragment.join ", " (← ownedExprs env place args)
    return text (path parts ++ "(") ++ rendered ++ text ")"
  | .call (.member receiver name) args => do
    let head ←
      match typeName? env receiver with
      | some type => pure (text (ident type ++ "::" ++ ident name ++ "("))
      | none =>
        pure (grouped receiver (← expr env place .value receiver) ++
          text ("." ++ ident name ++ "("))
    let rendered := Fragment.join ", " (← ownedExprs env place args)
    return head ++ rendered ++ text ")"
  | .call callee args => do
    let head := Fragment.parens (← expr env place .value callee)
    let rendered := Fragment.join ", " (← ownedExprs env place args)
    return head ++ text "(" ++ rendered ++ text ")"
  | .construct type args => do
    let spelling ← mapType env.known place.toScope type
    let rendered := Fragment.join ", " (← ownedExprs env place args)
    return text (associated spelling ++ "::new(") ++ rendered ++ text ")"
  | .array elements elementType => do
    let items := Fragment.join ", " (← ownedExprs env place elements)
    arrayLiteral env place.toScope elements.isEmpty items elementType
  | .lambda params (.expr value) => do
    let head ← lambdaHead env place.toScope params
    return text (head ++ " ") ++ [.apart (← expr env place.closure .value value)]
  | .lambda params (.block block) => do
    let head ← lambdaHead env place.toScope params
    return text (head ++ " ") ++ [.nested .closure (← stmts env place.closure block)]
  | .range start stop inclusive => do
    let first := (← operandOption env place start).getD (text "0")
    let last ← operandOption env place stop
    match last with
    | some last => return first ++ text (if inclusive then "..=" else "..") ++ last
    | none => return first ++ text ".."
  | .block block => return [.nested .value (← valueBlock env place block)]
  | .matchOn scrutinee arms => do
    let patterns := arms.map (·.pattern)
    let subject := subjectText scrutinee patterns (← expr env place .value scrutinee)
    let shown ← matchArms env place arms
    let rest := if Pattern.anyDefault patterns then [] else [text "_ => unreachable!()"]
    return text "match " ++ subject ++ [.arms (shown ++ rest)]
  | .this => return text (if place.inConstructor then "instance" else "self")

/-- The fragments of expressions, from left to right. -/
def exprs (env : Env) (place : Place) : List Expr → Gen (List Fragment)
  | [] => return []
  | e :: es => return (← expr env place .value e) :: (← exprs env place es)

/-- The fragments of expressions whose values are owned, from left to right. -/
def ownedExprs (env : Env) (place : Place) : List Expr → Gen (List Fragment)
  | [] => return []
  | e :: es => return owned e (← expr env place .value e) :: (← ownedExprs env place es)

/-- The fragment of an optional operand. -/
def operandOption (env : Env) (place : Place) : Option Expr → Gen (Option Fragment)
  | none => return none
  | some e => return some (grouped e (← expr env place .value e))

/-- The fragment of an optional expression whose value is owned. -/
def ownedOption (env : Env) (place : Place) : Option Expr → Gen (Option Fragment)
  | none => return none
  | some e => return some (owned e (← expr env place .value e))

/-- A block whose last expression is its value. -/
def valueBlock (env : Env) (place : Place) : List Stmt → Gen (List Code)
  | [] => return []
  | [.expr value] => do
    -- A step has no value of its own, so the block has none either.
    if isStep value then
      return [.line ((← expr env place .statement value) ++ text ";")]
    else
      return [.line (← expr env place .value value)]
  | s :: ss => return (← stmt env place s) ++ (← valueBlock env place ss)

/-- The arms of a match expression; a block becomes a closure that is called on the spot. -/
def matchArms (env : Env) (place : Place) : List MatchArm → Gen (List Fragment)
  | [] => return []
  | ⟨pattern, .expr value⟩ :: arms => do
    let selector ← armPattern env place pattern
    let result := owned value (← expr env place .value value)
    return (selector ++ text " => " ++ result) :: (← matchArms env place arms)
  | ⟨pattern, .block block⟩ :: arms => do
    let selector ← armPattern env place pattern
    let code ← stmts env place.closure block
    -- A closure that may run off its end needs some value of the type of the other arms.
    let closed :=
      if Stmt.endsWithReturn block then code else code ++ [.text "return Default::default();"]
    return (selector ++ text " => (|| " ++ [.nested .closure closed] ++ text ")()") ::
      (← matchArms env place arms)

/-- The pattern of an arm. -/
def armPattern (env : Env) (place : Place) : Pattern → Gen Fragment
  | .default => return text "_"
  | .values values => return Fragment.join " | " (← exprs env place values)

/-- The code of a statement. -/
def stmt (env : Env) (place : Place) : Stmt → Gen (List Code)
  | .binding b => return [.line ((← binding env place false b) ++ text ";")]
  | .ifThen condition thenBranch elseBranch => do
    let header := text "if " ++ (← expr env place .value condition)
    let body ← stmts env place thenBranch
    return [.chain (.mk header body :: (← elseChain env place elseBranch))]
  | .whileLoop condition body => do
    let header := text "while " ++ (← expr env place .value condition)
    return [.block (.loop none) header (← stmts env (place.inLoop none) body) ""]
  | .forLoop start condition step body => do
    let first ← forClause env place start
    let header ← loopHeader env place condition
    let inner : List Code ←
      -- Without a step, or without a `continue`, there is nothing to run before the next round.
      if step.isSome && Stmt.anyContinues body then do
        let label ← Gen.freshLabel
        let code ← stmts env (place.inLoop (some label)) body
        pure [.block (.labelled label) (text ("'body_" ++ toString label ++ ":")) code ""]
      else stmts env (place.inLoop none) body
    let last ← stepLine env place step
    let loop : Code := .block (.loop none) header (inner ++ last) ""
    -- The braces end the life of the loop variable with the loop.
    return if start.isSome then [.braces (first ++ [loop])] else [loop]
  | .forEach name _ iterable body => do
    let collection := iterated iterable (← expr env place .value iterable)
    let header := text ("for " ++ ident name ++ " in ") ++ collection
    return [.block (.loop none) header (← stmts env (place.inLoop none) body) ""]
  | .ret none => return [.text "return;"]
  | .ret (some value) => do
    let shown := returned value (← expr env place .value value)
    return [.line (text "return " ++ shown ++ text ";")]
  | .breakLoop => return [.jump .leaveInnermost]
  | .continueLoop => return [.jump (nextRound place.continueLabel)]
  | .matchOn scrutinee arms => do
    let patterns := arms.map (·.pattern)
    let subject := subjectText scrutinee patterns (← expr env place .value scrutinee)
    return [matchCode subject patterns (← matchCases env place arms)]
  | .expr (.matchOn scrutinee arms) => do
    let patterns := arms.map (·.pattern)
    let subject := subjectText scrutinee patterns (← expr env place .value scrutinee)
    return [matchCode subject patterns (← matchCases env place arms)]
  | .switchOn subject cases => do
    let patterns := cases.map (·.pattern)
    let subject := subjectText subject patterns (← expr env place .value subject)
    return [matchCode subject patterns (← switchCases env place cases)]
  | .expr value => return [.line ((← expr env place .statement value) ++ text ";")]
  | .raw block => target.rawCode block
  | .functionDecl _ decl => do
    return .separator ::
      (← function env place.closure { visibility := "" } (fun _ => return []) decl)
  | .typeDecl _ decl => Gen.fail (.typeInBody place.toScope decl.name)
  | .enumDecl decl => Gen.fail (.typeInBody place.toScope decl.name)
  | s => target.refuseInBody place.toScope s

/-- The code of statements. -/
def stmts (env : Env) (place : Place) : List Stmt → Gen (List Code)
  | [] => return []
  | s :: ss => return (← stmt env place s) ++ (← stmts env place ss)

/-- A variable without its semicolon. -/
def binding (env : Env) (place : Place) (forceMutable : Bool) : Binding → Gen Fragment
  | ⟨name, type, value, mutability⟩ => do
    let keyword := if forceMutable || mutability = .mutable then "let mut " else "let "
    let spelling ← type.mapM (mapType env.known place.toScope)
    let rendered ← ownedOption env place value
    return text (keyword ++ ident name ++ spelling.elim "" (": " ++ ·)) ++
      rendered.elim [] (text " = " ++ ·)

/-- The first clause of a counted loop. -/
def forClause (env : Env) (place : Place) : Option Stmt → Gen (List Code)
  | none => return []
  | some (.binding b) => return [.line ((← binding env place true b) ++ text ";")]
  | some (.expr value) => return [.line ((← expr env place .statement value) ++ text ";")]
  | some s => do
    Gen.report (.noLoopStart s)
    return []

/-- The header of a counted loop. -/
def loopHeader (env : Env) (place : Place) : Option Expr → Gen Fragment
  | none => return text "loop"
  | some condition => return text "while " ++ (← expr env place .value condition)

/-- The step of a counted loop. -/
def stepLine (env : Env) (place : Place) : Option Expr → Gen (List Code)
  | none => return []
  | some step => return [.line ((← expr env place .statement step) ++ text ";")]

/-- The branches behind an `if`; a lone `if` in an else branch continues the chain. -/
def elseChain (env : Env) (place : Place) : Option (List Stmt) → Gen (List Branch)
  | none => return []
  | some [.ifThen condition thenBranch elseBranch] => do
    let header := text "else if " ++ (← expr env place .value condition)
    let body ← stmts env place thenBranch
    return .mk header body :: (← elseChain env place elseBranch)
  | some block => return [.mk (text "else") (← stmts env place block)]

/-- The arms of a match statement. -/
def matchCases (env : Env) (place : Place) : List MatchArm → Gen (List Code)
  | [] => return []
  | ⟨pattern, .expr value⟩ :: arms => do
    let selector ← armPattern env place pattern
    let shown ← expr env place .statement value
    return .block .plain (selector ++ text " =>") [.hung (shown ++ text ";")] "" ::
      (← matchCases env place arms)
  | ⟨pattern, .block block⟩ :: arms => do
    let selector ← armPattern env place pattern
    return .block .plain (selector ++ text " =>") (← stmts env place block) "" ::
      (← matchCases env place arms)

/-- The cases of a switch as arms of a match statement. -/
def switchCases (env : Env) (place : Place) : List SwitchCase → Gen (List Code)
  | [] => return []
  | ⟨pattern, block⟩ :: cases => do
    let selector ← armPattern env place pattern
    return .block .plain (selector ++ text " =>") (← stmts env place block) "" ::
      (← switchCases env place cases)

/-- The lines of all attributes that are no markers; one that means nothing in Rust becomes a
comment. -/
def attributeLines (env : Env) (place : Place) : List Attribute → Gen (List Code)
  | [] => return []
  | ⟨name, args⟩ :: attributes => do
    if (Marker.ofName? name).isSome then attributeLines env place attributes
    else
      let rendered ← exprs env place args
      let shown : Fragment :=
        if args.isEmpty then [] else [.apart (Fragment.parens (Fragment.join ", " rendered))]
      if knownAttributes.contains name then
        return .line (text ("#[" ++ name) ++ shown ++ text "]") ::
          (← attributeLines env place attributes)
      else
        Gen.report ((Diagnostic.info ("attribute `" ++ name ++
          "` has no Rust equivalent; kept as a comment")).withContext target.id)
        return .comment (text ("@" ++ name) ++ shown) :: (← attributeLines env place attributes)

/-- A function or method; `prologue` is written ahead of its own body. -/
def function (env : Env) (place : Place) (options : FunctionOptions)
    (prologue : Place → Gen (List Code)) : Function → Gen (List Code)
  | ⟨name, params, returnType, generics, _, attributes, body, _, _⟩ => do
    if ← target.skipMarked "function" name attributes then
      return []
    if Text.hasChar '.' name then
      Gen.report (.qualifiedFunction name)
      return []
    let inner : Place :=
      { place with functionGenerics := generics, inStatic := options.receiver = .none }
    let lines ← attributeLines env inner attributes
    let shown := options.receiver.params ++ (← parameters env inner.toScope params)
    let returns ←
      match options.returns with
      | some returns => pure returns
      | none => returnSpelling env inner.toScope name returnType body
    let bounds ← genericParams env inner.toScope generics
    let head := options.visibility ++ "fn " ++ ident (options.name.getD name) ++ bounds ++ "(" ++
      Text.join ", " shown ++ ")" ++ returnClause returns
    return lines ++ (← functionBody env inner options.requireBody prologue head body)

/-- The body of a function behind its head. -/
def functionBody (env : Env) (place : Place) (requireBody : Bool)
    (prologue : Place → Gen (List Code)) (head : String) : Option (List Stmt) → Gen (List Code)
  | none =>
    if requireBody then
      return [.block .function (text head) [.text "unimplemented!()"] ""]
    else return [.text (head ++ ";")]
  | some body => do
    let before ← prologue place
    return [.block .function (text head) (before ++ (← stmts env place body)) ""]

end

end Rust

end SourceGen
