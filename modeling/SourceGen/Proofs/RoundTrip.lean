import SourceGen.Proofs.JsonForm

/-!
# Trees survive their JSON form

Reading the form of a tree gives the tree back, however deep it nests. The induction is over the
tree; a list of parts has a list of forms, item by item.

## Main results

* `Stmt.formOf`, `Expr.formOf`: the forms of statements and expressions.
* `Program.decode_encode`: the form of a program is read back as the program.
-/

namespace SourceGen

open Json (FormOf required_eq defaulted_eq optional_eq)

/-! ### Leaves -/

/-- The words of the modifiers are pairwise different, so a word finds its modifier. -/
theorem Modifier.ofWord?_word (m : Modifier) : ofWord? m.word = some m := by
  cases m <;> decide

/-- A word finds its kind of accessor. -/
theorem AccessorKind.ofWord?_word (k : AccessorKind) : ofWord? k.word = some k := by
  cases k <;> decide

/-- A word finds its kind of variable. -/
theorem Mutability.ofWord?_word (m : Mutability) : ofWord? m.word = some m := by
  cases m <;> decide

/-- The modifiers of a declaration are read back from their words. -/
theorem Modifier.formOf (ms : List Modifier) : FormOf decodeAll (encodeAll ms) ms := by
  have h : List.Forall₂ (FormOf fun levels => Json.unitTag levels ofWord?)
      ((ms.map word).map .string) ms := by
    induction ms with
    | nil => exact .nil
    | cons m ms ih => exact .cons (.unitTag m.ofWord?_word) ih
  exact .items h

namespace TypeRef

mutual

theorem formOf : (t : TypeRef) → FormOf decode t.encode t
  | ⟨name, args⟩ => by
    have hname := FormOf.string name
    have hargs : FormOf decodeAll (.array (encodeAll args)) args :=
      .array (formsOf args) fun _ _ => by rw [decodeAll]
    rw [encode]
    refine .record rfl (by simp [Json.fieldsComplete, hname.complete, hargs.complete]) ?_
    intro levels h
    rw [decode, required_eq "name" hname rfl h, defaulted_eq "args" hargs rfl h]
    rfl

theorem formsOf : (ts : List TypeRef) → List.Forall₂ (FormOf decode) (encodeAll ts) ts
  | [] => .nil
  | t :: ts => .cons (formOf t) (formsOf ts)

end

/-- A list of references is read back. -/
theorem formOfAll (ts : List TypeRef) : FormOf decodeAll (.array (encodeAll ts)) ts :=
  .array (formsOf ts) fun _ _ => by rw [decodeAll]

/-- An optional reference is read back; a missing one is null. -/
theorem formOfOption (t : Option TypeRef) :
    FormOf (fun levels => Json.nullable (decode levels)) (encodeOption t) t := by
  cases t with
  | none => exact .none
  | some t => exact .some (formOf t) (by cases t; nofun)

end TypeRef

/-- A literal is read back with its kind; numbers stay texts. -/
theorem Literal.formOf (l : Literal) : FormOf decode l.encode l := by
  cases l with
  | number text => exact .tagged "Number" (.string text) rfl fun _ h => congrArg (Option.map _) h
  | string value => exact .tagged "String" (.string value) rfl fun _ h => congrArg (Option.map _) h
  | char value =>
    have hchar : FormOf (fun _ => Json.asChar) (.string value.toString) value :=
      ⟨rfl, fun _ _ => by simp [Json.asChar]⟩
    exact .tagged "Char" hchar rfl fun _ h => by rw [decode, if_neg (by simp), h]; rfl
  | bool value => exact .tagged "Bool" (.bool value) rfl fun _ h => congrArg (Option.map _) h
  | null => exact ⟨rfl, fun _ _ => rfl⟩

/-- An import is read back, with an alias or without one. -/
theorem Import.formOf (d : Import) : FormOf decode d.encode d := by
  have hpath := FormOf.strings d.path
  have hname := FormOf.stringOption d.localName
  refine .record rfl (by simp [Json.fieldsComplete, hpath.complete, hname.complete]) ?_
  intro levels h
  rw [decode, required_eq "path" hpath rfl h, optional_eq "alias" hname rfl h]
  rfl

/-- A generic parameter is read back with its bounds. -/
theorem GenericParam.formOf (g : GenericParam) : FormOf decode g.encode g := by
  have hname := FormOf.string g.name
  have hconstraints := TypeRef.formOfAll g.constraints
  refine .record rfl (by simp [Json.fieldsComplete, hname.complete, hconstraints.complete]) ?_
  intro levels h
  rw [decode, required_eq "name" hname rfl h, defaulted_eq "constraints" hconstraints rfl h]
  rfl

/-- The generic parameters of a declaration are read back. -/
theorem GenericParam.formOfAll (gs : List GenericParam) :
    FormOf decodeAll (.array (gs.map encode)) gs := by
  have h : List.Forall₂ (FormOf decode) (gs.map encode) gs := by
    induction gs with
    | nil => exact .nil
    | cons g gs ih => exact .cons g.formOf ih
  exact .items h

/-- A type alias is read back. -/
theorem Alias.formOf (d : Alias) : FormOf decode d.encode d := by
  have hname := FormOf.string d.name
  have hgenerics := GenericParam.formOfAll d.generics
  have htarget := d.target.formOf
  refine .record rfl
    (by simp [Json.fieldsComplete, hname.complete, hgenerics.complete, htarget.complete]) ?_
  intro levels h
  rw [decode, required_eq "name" hname rfl h, defaulted_eq "generics" hgenerics rfl h,
    required_eq "target" htarget rfl h]
  rfl

/-- Raw text is read back with the target it is written for, if there is one. -/
theorem RawBlock.formOf (b : RawBlock) : FormOf decode b.encode b := by
  have htarget := FormOf.stringOption b.target
  have hcode := FormOf.string b.code
  refine .record rfl (by simp [Json.fieldsComplete, htarget.complete, hcode.complete]) ?_
  intro levels h
  rw [decode, optional_eq "target" htarget rfl h, required_eq "code" hcode rfl h]
  rfl

/-! ### Data of statements

The data of a statement is a form if its parts are. -/

namespace Stmt

variable {v w u : Json} {condition : Expr} {body : List Stmt}

/-- An included unit is an object that holds its statements. -/
theorem formOf_unit (h : FormOf decodeAll v body) :
    FormOf decodeUnit (.object [("statements", v)]) body := by
  refine .record rfl (by simp [Json.fieldsComplete, h.complete]) ?_
  intro levels hlevels
  rw [decodeUnit, required_eq "statements" h rfl hlevels]

/-- An include is its path with the unit that it stands for. -/
theorem formOf_include (path : String) (h : FormOf decodeUnit v body) :
    FormOf decodeInclude (.object [("path", .string path), ("program", v)])
      (.includeDecl path body) := by
  have hpath := FormOf.string path
  refine .record rfl (by simp [Json.fieldsComplete, hpath.complete, h.complete]) ?_
  intro levels hlevels
  rw [decodeInclude, required_eq "path" hpath rfl hlevels, required_eq "program" h rfl hlevels]
  rfl

/-- A namespace is its name with its members. -/
theorem formOf_namespace (name : String) (h : FormOf decodeAll v body) :
    FormOf decodeNamespace (.object [("name", .string name), ("members", v)])
      (.namespaceDecl name body) := by
  have hname := FormOf.string name
  refine .record rfl (by simp [Json.fieldsComplete, hname.complete, h.complete]) ?_
  intro levels hlevels
  rw [decodeNamespace, required_eq "name" hname rfl hlevels, required_eq "members" h rfl hlevels]
  rfl

/-- An `if` is its condition with both of its branches. -/
theorem formOf_if {otherwise : Option (List Stmt)} (hcondition : FormOf Expr.decode v condition)
    (hbody : FormOf decodeAll w body)
    (hotherwise : FormOf (fun levels => Json.nullable (decodeAll levels)) u otherwise) :
    FormOf decodeIf (.object [("condition", v), ("then_branch", w), ("else_branch", u)])
      (.ifThen condition body otherwise) := by
  refine .record rfl
    (by simp [Json.fieldsComplete, hcondition.complete, hbody.complete, hotherwise.complete]) ?_
  intro levels hlevels
  rw [decodeIf, required_eq "condition" hcondition rfl hlevels,
    required_eq "then_branch" hbody rfl hlevels, optional_eq "else_branch" hotherwise rfl hlevels]
  rfl

/-- A loop with a condition is that with its body. -/
theorem formOf_while (hcondition : FormOf Expr.decode v condition)
    (hbody : FormOf decodeAll w body) :
    FormOf decodeWhile (.object [("condition", v), ("body", w)]) (.whileLoop condition body) := by
  refine .record rfl (by simp [Json.fieldsComplete, hcondition.complete, hbody.complete]) ?_
  intro levels hlevels
  rw [decodeWhile, required_eq "condition" hcondition rfl hlevels,
    required_eq "body" hbody rfl hlevels]
  rfl

/-- The header of a counted loop has three parts, each of which may be missing. -/
theorem formOf_counted {start : Option Stmt} {condition step : Option Expr}
    (hstart : FormOf (fun levels => Json.nullable (decode levels)) v start)
    (hcondition : FormOf (fun levels => Json.nullable (Expr.decode levels)) w condition)
    (hstep : FormOf (fun levels => Json.nullable (Expr.decode levels)) u step) :
    FormOf decodeCounted (.object [("init", v), ("condition", w), ("increment", u)])
      (.forLoop start condition step) := by
  refine .record rfl
    (by simp [Json.fieldsComplete, hstart.complete, hcondition.complete, hstep.complete]) ?_
  intro levels hlevels
  rw [decodeCounted, optional_eq "init" hstart rfl hlevels,
    optional_eq "condition" hcondition rfl hlevels, optional_eq "increment" hstep rfl hlevels]
  rfl

/-- The header of a loop over a sequence is a variable and the sequence. -/
theorem formOf_iteration (name : String) (type : Option TypeRef)
    (hiterable : FormOf Expr.decode v condition) :
    FormOf decodeIteration (.object [("variable", .string name),
      ("variable_type", TypeRef.encodeOption type), ("iterable", v)])
      (.forEach name type condition) := by
  have hname := FormOf.string name
  have htype := TypeRef.formOfOption type
  refine .record rfl
    (by simp [Json.fieldsComplete, hname.complete, htype.complete, hiterable.complete]) ?_
  intro levels hlevels
  rw [decodeIteration, required_eq "variable" hname rfl hlevels,
    optional_eq "variable_type" htype rfl hlevels, required_eq "iterable" hiterable rfl hlevels]
  rfl

/-- Both kinds of `for` differ in their headers only. -/
theorem formOf_for {header : List Stmt → Stmt} (hheader : FormOf decodeForHeader v header)
    (hbody : FormOf decodeAll w body) :
    FormOf decodeFor (.object [("kind", v), ("body", w)]) (header body) := by
  refine .record rfl (by simp [Json.fieldsComplete, hheader.complete, hbody.complete]) ?_
  intro levels hlevels
  rw [decodeFor, required_eq "kind" hheader rfl hlevels, required_eq "body" hbody rfl hlevels]
  rfl

/-- A match as a statement is what is matched, with the arms. -/
theorem formOf_match {arms : List MatchArm} (hscrutinee : FormOf Expr.decode v condition)
    (harms : FormOf MatchArm.decodeAll w arms) :
    FormOf decodeMatch (.object [("scrutinee", v), ("arms", w)]) (.matchOn condition arms) := by
  refine .record rfl (by simp [Json.fieldsComplete, hscrutinee.complete, harms.complete]) ?_
  intro levels hlevels
  rw [decodeMatch, required_eq "scrutinee" hscrutinee rfl hlevels,
    required_eq "arms" harms rfl hlevels]
  rfl

/-- A switch is what it selects by, with its cases. -/
theorem formOf_switch {cases : List SwitchCase} (hsubject : FormOf Expr.decode v condition)
    (hcases : FormOf SwitchCase.decodeAll w cases) :
    FormOf decodeSwitch (.object [("subject", v), ("cases", w)]) (.switchOn condition cases) := by
  refine .record rfl (by simp [Json.fieldsComplete, hsubject.complete, hcases.complete]) ?_
  intro levels hlevels
  rw [decodeSwitch, required_eq "subject" hsubject rfl hlevels,
    required_eq "cases" hcases rfl hlevels]
  rfl

/-- No statement is written as null, so null stands for a missing one. -/
theorem encode_ne_null (s : Stmt) : s.encode ≠ .null := by
  cases s <;> exact nofun

end Stmt

/-! ### Data of expressions -/

namespace Expr

variable {v w u : Json} {left right : Expr} {args : List Expr}

/-- An expression with named parts is a form if the record of its parts is. -/
theorem formOf_record {fields : List (String × Json)} {e : Expr} (tag : String)
    (htag : Json.areComplete [tag] = true) (hnames : Json.areComplete (fields.map Prod.fst) = true)
    (hfields : Json.fieldsComplete fields = true)
    (hleaf : tag ∉ ["Literal", "Identifier", "QualifiedIdentifier", "Block", "This"])
    (hread : ∀ levels, Json.depthFields fields ≤ levels →
      decodeRecord (levels + 1) tag (.object fields) = some e) :
    FormOf decode (.tagged tag (.object fields)) e := by
  have hinner : FormOf (fun levels => decodeRecord levels tag) (.object fields) e :=
    .record hnames hfields hread
  simp only [List.mem_cons, List.not_mem_nil, or_false, not_or] at hleaf
  obtain ⟨hliteral, hident, hpath, hblock, hthis⟩ := hleaf
  refine .tagged tag hinner htag ?_
  intro levels h
  -- The tags of the leaves are tried first.
  rw [decode]
  · exact h
  all_goals assumption

/-- A member access is an object with a name. -/
theorem formOf_member (name : String) (hobject : FormOf decode v left) :
    FormOf decode (.tagged "MemberAccess" (.object [("object", v), ("member", .string name)]))
      (.member left name) := by
  have hname := FormOf.string name
  refine formOf_record "MemberAccess" rfl rfl
    (by simp [Json.fieldsComplete, hobject.complete, hname.complete]) (by simp) ?_
  intro levels hlevels
  simp only [decodeRecord.eq_def]
  rw [required_eq "object" hobject rfl hlevels, required_eq "member" hname rfl hlevels]
  rfl

/-- An access by an index is an object with the index. -/
theorem formOf_index (hobject : FormOf decode v left) (hindex : FormOf decode w right) :
    FormOf decode (.tagged "IndexAccess" (.object [("object", v), ("index", w)]))
      (.index left right) := by
  refine formOf_record "IndexAccess" rfl rfl
    (by simp [Json.fieldsComplete, hobject.complete, hindex.complete]) (by simp) ?_
  intro levels hlevels
  simp only [decodeRecord.eq_def]
  rw [required_eq "object" hobject rfl hlevels, required_eq "index" hindex rfl hlevels]
  rfl

/-- An operator is read back from its name. -/
theorem formOf_op (op : Token) :
    FormOf (fun levels => Json.unitTag levels Token.ofName?) (.string op.name) op :=
  .unitTag op.ofName?_name

/-- A binary expression is its operator between two operands. -/
theorem formOf_binary (op : Token) (hleft : FormOf decode v left)
    (hright : FormOf decode w right) :
    FormOf decode
      (.tagged "Binary" (.object [("left", v), ("op", .string op.name), ("right", w)]))
      (.binary left op right) := by
  have hop := formOf_op op
  refine formOf_record "Binary" rfl rfl
    (by simp [Json.fieldsComplete, hleft.complete, hop.complete, hright.complete]) (by simp) ?_
  intro levels hlevels
  simp only [decodeRecord.eq_def]
  rw [required_eq "left" hleft rfl hlevels, required_eq "op" hop rfl hlevels,
    required_eq "right" hright rfl hlevels]
  rfl

/-- A unary expression is its operator with its operand, on either side of it. -/
theorem formOf_unary (op : Token) (trailing : Bool) (hoperand : FormOf decode v left) :
    FormOf decode (.tagged "Unary" (.object [("op", .string op.name), ("operand", v),
      ("postfix", .bool trailing)])) (.unary op left trailing) := by
  have hop := formOf_op op
  have htrailing := FormOf.bool trailing
  refine formOf_record "Unary" rfl rfl
    (by simp [Json.fieldsComplete, hop.complete, hoperand.complete, htrailing.complete])
    (by simp) ?_
  intro levels hlevels
  simp only [decodeRecord.eq_def]
  rw [required_eq "op" hop rfl hlevels, required_eq "operand" hoperand rfl hlevels,
    defaulted_eq "postfix" htrailing rfl hlevels]
  rfl

/-- An assignment is a target, an operator and a value. -/
theorem formOf_assign (op : Token) (htarget : FormOf decode v left)
    (hvalue : FormOf decode w right) :
    FormOf decode
      (.tagged "Assignment" (.object [("target", v), ("op", .string op.name), ("value", w)]))
      (.assign left op right) := by
  have hop := formOf_op op
  refine formOf_record "Assignment" rfl rfl
    (by simp [Json.fieldsComplete, htarget.complete, hop.complete, hvalue.complete]) (by simp) ?_
  intro levels hlevels
  simp only [decodeRecord.eq_def]
  rw [required_eq "target" htarget rfl hlevels, required_eq "op" hop rfl hlevels,
    required_eq "value" hvalue rfl hlevels]
  rfl

/-- A call is what is called, with the arguments. -/
theorem formOf_call (hcallee : FormOf decode v left) (hargs : FormOf decodeAll w args) :
    FormOf decode (.tagged "Call" (.object [("callee", v), ("args", w)])) (.call left args) := by
  refine formOf_record "Call" rfl rfl
    (by simp [Json.fieldsComplete, hcallee.complete, hargs.complete]) (by simp) ?_
  intro levels hlevels
  simp only [decodeRecord.eq_def]
  rw [required_eq "callee" hcallee rfl hlevels, required_eq "args" hargs rfl hlevels]
  rfl

/-- A constructor call is a type with the arguments. -/
theorem formOf_construct (type : TypeRef) (hargs : FormOf decodeAll w args) :
    FormOf decode (.tagged "ConstructorCall" (.object [("ty", type.encode), ("args", w)]))
      (.construct type args) := by
  have htype := type.formOf
  refine formOf_record "ConstructorCall" rfl rfl
    (by simp [Json.fieldsComplete, htype.complete, hargs.complete]) (by simp) ?_
  intro levels hlevels
  simp only [decodeRecord.eq_def]
  rw [required_eq "ty" htype rfl hlevels, required_eq "args" hargs rfl hlevels]
  rfl

/-- An array is its elements, with an element type if it has one. -/
theorem formOf_array (type : Option TypeRef) (helements : FormOf decodeAll v args) :
    FormOf decode (.tagged "ArrayLiteral" (.object [("elements", v),
      ("element_type", TypeRef.encodeOption type)])) (.array args type) := by
  have htype := TypeRef.formOfOption type
  refine formOf_record "ArrayLiteral" rfl rfl
    (by simp [Json.fieldsComplete, helements.complete, htype.complete]) (by simp) ?_
  intro levels hlevels
  simp only [decodeRecord.eq_def]
  rw [required_eq "elements" helements rfl hlevels, optional_eq "element_type" htype rfl hlevels]
  rfl

/-- A lambda is its parameters with a body. -/
theorem formOf_lambda {params : List Parameter} {body : Body}
    (hparams : FormOf Parameter.decodeAll v params) (hbody : FormOf Body.decode w body) :
    FormOf decode (.tagged "Lambda" (.object [("params", v), ("body", w)]))
      (.lambda params body) := by
  refine formOf_record "Lambda" rfl rfl
    (by simp [Json.fieldsComplete, hparams.complete, hbody.complete]) (by simp) ?_
  intro levels hlevels
  simp only [decodeRecord.eq_def]
  rw [required_eq "params" hparams rfl hlevels, required_eq "body" hbody rfl hlevels]
  rfl

/-- A range is its two bounds, each of which may be missing. -/
theorem formOf_range {start stop : Option Expr} (inclusive : Bool)
    (hstart : FormOf (fun levels => Json.nullable (decode levels)) v start)
    (hstop : FormOf (fun levels => Json.nullable (decode levels)) w stop) :
    FormOf decode (.tagged "Range" (.object [("start", v), ("end", w),
      ("inclusive", .bool inclusive)])) (.range start stop inclusive) := by
  have hinclusive := FormOf.bool inclusive
  refine formOf_record "Range" rfl rfl
    (by simp [Json.fieldsComplete, hstart.complete, hstop.complete, hinclusive.complete])
    (by simp) ?_
  intro levels hlevels
  simp only [decodeRecord.eq_def]
  rw [optional_eq "start" hstart rfl hlevels, optional_eq "end" hstop rfl hlevels,
    defaulted_eq "inclusive" hinclusive rfl hlevels]
  rfl

/-- A match as an expression is written like one as a statement. -/
theorem formOf_match {arms : List MatchArm} (hscrutinee : FormOf decode v left)
    (harms : FormOf MatchArm.decodeAll w arms) :
    FormOf decode (.tagged "Match" (.object [("scrutinee", v), ("arms", w)]))
      (.matchOn left arms) := by
  refine formOf_record "Match" rfl rfl
    (by simp [Json.fieldsComplete, hscrutinee.complete, harms.complete]) (by simp) ?_
  intro levels hlevels
  simp only [decodeRecord.eq_def]
  rw [required_eq "scrutinee" hscrutinee rfl hlevels, required_eq "arms" harms rfl hlevels]
  rfl

/-- No expression is written as null, so null stands for a missing one. -/
theorem encode_ne_null (e : Expr) : e.encode ≠ .null := by
  cases e <;> exact nofun

end Expr

/-! ### Lists of parts -/

section Lists

variable {vs : List Json}

/-- Statements that are read back one by one are read back as a list. -/
theorem Stmt.formOf_all {ss : List Stmt} (h : List.Forall₂ (FormOf Stmt.decode) vs ss) :
    FormOf Stmt.decodeAll (.array vs) ss :=
  .array h fun _ _ => by rw [Stmt.decodeAll]

/-- Expressions that are read back one by one are read back as a list. -/
theorem Expr.formOf_all {es : List Expr} (h : List.Forall₂ (FormOf Expr.decode) vs es) :
    FormOf Expr.decodeAll (.array vs) es :=
  .array h fun _ _ => by rw [Expr.decodeAll]

/-- Arms that are read back one by one are read back as a list. -/
theorem MatchArm.formOf_all {arms : List MatchArm}
    (h : List.Forall₂ (FormOf MatchArm.decode) vs arms) :
    FormOf MatchArm.decodeAll (.array vs) arms :=
  .array h fun _ _ => by rw [MatchArm.decodeAll]

/-- Cases that are read back one by one are read back as a list. -/
theorem SwitchCase.formOf_all {cases : List SwitchCase}
    (h : List.Forall₂ (FormOf SwitchCase.decode) vs cases) :
    FormOf SwitchCase.decodeAll (.array vs) cases :=
  .array h fun _ _ => by rw [SwitchCase.decodeAll]

/-- Attributes that are read back one by one are read back as a list. -/
theorem Attribute.formOf_all {attributes : List Attribute}
    (h : List.Forall₂ (FormOf Attribute.decode) vs attributes) :
    FormOf Attribute.decodeAll (.array vs) attributes :=
  .array h fun _ _ => by rw [Attribute.decodeAll]

/-- Parameters that are read back one by one are read back as a list. -/
theorem Parameter.formOf_all {params : List Parameter}
    (h : List.Forall₂ (FormOf Parameter.decode) vs params) :
    FormOf Parameter.decodeAll (.array vs) params :=
  .array h fun _ _ => by rw [Parameter.decodeAll]

/-- Variants that are read back one by one are read back as a list. -/
theorem EnumVariant.formOf_all {variants : List EnumVariant}
    (h : List.Forall₂ (FormOf EnumVariant.decode) vs variants) :
    FormOf EnumVariant.decodeAll (.array vs) variants :=
  .array h fun _ _ => by rw [EnumVariant.decodeAll]

/-- Accessors that are read back one by one are read back as a list. -/
theorem Accessor.formOf_all {accessors : List Accessor}
    (h : List.Forall₂ (FormOf Accessor.decode) vs accessors) :
    FormOf Accessor.decodeAll (.array vs) accessors :=
  .array h fun _ _ => by rw [Accessor.decodeAll]

end Lists

/-! ### The mutual family -/

-- The form of a tree is its tag around the data by definition, and the reader goes on with the data
-- behind the tag. So what is left of each case is the constructor around what `h` says was read.

mutual

/-- The form of a statement is read back as the statement. -/
theorem Stmt.formOf : (s : Stmt) → FormOf Stmt.decode s.encode s
  | .importDecl d => .tagged "Import" d.formOf rfl fun _ h => congrArg (Option.map _) h
  | .includeDecl path stmts => by
    have hunit := Stmt.formOf_unit (Stmt.formOf_all (Stmt.formsOf stmts))
    have hinclude := Stmt.formOf_include path hunit
    exact .tagged "Include" hinclude rfl fun _ h => h
  | .aliasDecl d => .tagged "TypeAlias" d.formOf rfl fun _ h => congrArg (Option.map _) h
  | .namespaceDecl name members => by
    have hnamespace := Stmt.formOf_namespace name (Stmt.formOf_all (Stmt.formsOf members))
    exact .tagged "Namespace" hnamespace rfl fun _ h => h
  | .typeDecl kind d => by
    have hdecl := TypeDecl.formOf d
    cases kind with
    | cls => exact .tagged "Class" hdecl rfl fun _ h => congrArg (Option.map _) h
    | struct => exact .tagged "Struct" hdecl rfl fun _ h => congrArg (Option.map _) h
    | interface => exact .tagged "Interface" hdecl rfl fun _ h => congrArg (Option.map _) h
  | .enumDecl d => .tagged "Enum" (EnumDecl.formOf d) rfl fun _ h => congrArg (Option.map _) h
  | .moduleDecl d => .tagged "Module" (ModuleDecl.formOf d) rfl fun _ h => congrArg (Option.map _) h
  | .functionDecl kind d => by
    have hdecl := Function.formOf d
    cases kind with
    | function => exact .tagged "Function" hdecl rfl fun _ h => congrArg (Option.map _) h
    | method => exact .tagged "Method" hdecl rfl fun _ h => congrArg (Option.map _) h
  | .fieldDecl d => .tagged "Field" (Field.formOf d) rfl fun _ h => congrArg (Option.map _) h
  | .propertyDecl d =>
    .tagged "Property" (Property.formOf d) rfl fun _ h => congrArg (Option.map _) h
  | .binding d => .tagged "Variable" (Binding.formOf d) rfl fun _ h => congrArg (Option.map _) h
  | .ifThen condition thenBranch elseBranch => by
    have hif := Stmt.formOf_if (Expr.formOf condition) (Stmt.formOf_all (Stmt.formsOf thenBranch))
      (Stmt.formOfBlock elseBranch)
    exact .tagged "If" hif rfl fun _ h => h
  | .whileLoop condition body => by
    have hwhile := Stmt.formOf_while (Expr.formOf condition) (Stmt.formOf_all (Stmt.formsOf body))
    exact .tagged "While" hwhile rfl fun _ h => h
  | .forLoop start condition step body => by
    -- A header is read on its own, as a function that waits for the body.
    have hcounted := Stmt.formOf_counted (Stmt.formOfOption start) (Expr.formOfOption condition)
      (Expr.formOfOption step)
    have hheader : FormOf Stmt.decodeForHeader _ (Stmt.forLoop start condition step) :=
      .tagged "CStyle" hcounted rfl fun _ h => h
    have hfor := Stmt.formOf_for hheader (Stmt.formOf_all (Stmt.formsOf body))
    exact .tagged "For" hfor rfl fun _ h => h
  | .forEach name type iterable body => by
    have hiteration := Stmt.formOf_iteration name type (Expr.formOf iterable)
    have hheader : FormOf Stmt.decodeForHeader _ (Stmt.forEach name type iterable) :=
      .tagged "Iteration" hiteration rfl fun _ h => h
    have hfor := Stmt.formOf_for hheader (Stmt.formOf_all (Stmt.formsOf body))
    exact .tagged "For" hfor rfl fun _ h => h
  | .ret value =>
    .tagged "Return" (Expr.formOfOption value) rfl fun _ h => congrArg (Option.map _) h
  | .breakLoop => ⟨rfl, fun levels _ => by cases levels <;> rfl⟩
  | .continueLoop => ⟨rfl, fun levels _ => by cases levels <;> rfl⟩
  | .matchOn scrutinee arms => by
    have harms := MatchArm.formOf_all (MatchArm.formsOf arms)
    have hmatch := Stmt.formOf_match (Expr.formOf scrutinee) harms
    exact .tagged "Match" hmatch rfl fun _ h => h
  | .switchOn subject cases => by
    have hcases := SwitchCase.formOf_all (SwitchCase.formsOf cases)
    have hswitch := Stmt.formOf_switch (Expr.formOf subject) hcases
    exact .tagged "Switch" hswitch rfl fun _ h => h
  | .expr value => .tagged "Expression" (Expr.formOf value) rfl fun _ h => congrArg (Option.map _) h
  | .raw block => .tagged "Raw" block.formOf rfl fun _ h => congrArg (Option.map _) h

theorem Stmt.formsOf : (ss : List Stmt) → List.Forall₂ (FormOf Stmt.decode) (Stmt.encodeAll ss) ss
  | [] => .nil
  | s :: ss => .cons (Stmt.formOf s) (Stmt.formsOf ss)

theorem Stmt.formOfOption : (s : Option Stmt) →
    FormOf (fun levels => Json.nullable (Stmt.decode levels)) (Stmt.encodeOption s) s
  | none => .none
  | some s => .some (Stmt.formOf s) s.encode_ne_null

theorem Stmt.formOfBlock : (body : Option (List Stmt)) →
    FormOf (fun levels => Json.nullable (Stmt.decodeAll levels)) (Stmt.encodeBlock body) body
  | none => .none
  | some body => .some (Stmt.formOf_all (Stmt.formsOf body)) nofun

/-- The form of an expression is read back as the expression. -/
theorem Expr.formOf : (e : Expr) → FormOf Expr.decode e.encode e
  | .literal value => .tagged "Literal" value.formOf rfl fun _ h => congrArg (Option.map _) h
  | .ident name => .tagged "Identifier" (.string name) rfl fun _ h => congrArg (Option.map _) h
  | .path parts =>
    .tagged "QualifiedIdentifier" (.strings parts) rfl fun _ h => congrArg (Option.map _) h
  | .member object name => Expr.formOf_member name (Expr.formOf object)
  | .index object i => Expr.formOf_index (Expr.formOf object) (Expr.formOf i)
  | .binary left op right => Expr.formOf_binary op (Expr.formOf left) (Expr.formOf right)
  | .unary op operand trailing => Expr.formOf_unary op trailing (Expr.formOf operand)
  | .assign target op value => Expr.formOf_assign op (Expr.formOf target) (Expr.formOf value)
  | .call callee args => Expr.formOf_call (Expr.formOf callee) (Expr.formOf_all (Expr.formsOf args))
  | .construct type args => Expr.formOf_construct type (Expr.formOf_all (Expr.formsOf args))
  | .array elements elementType =>
    Expr.formOf_array elementType (Expr.formOf_all (Expr.formsOf elements))
  | .lambda params body =>
    Expr.formOf_lambda (Parameter.formOf_all (Parameter.formsOf params)) (Body.formOf body)
  | .range start stop inclusive =>
    Expr.formOf_range inclusive (Expr.formOfOption start) (Expr.formOfOption stop)
  | .block stmts => by
    have hstmts := Stmt.formOf_all (Stmt.formsOf stmts)
    exact .tagged "Block" hstmts rfl fun _ h => congrArg (Option.map _) h
  | .matchOn scrutinee arms =>
    Expr.formOf_match (Expr.formOf scrutinee) (MatchArm.formOf_all (MatchArm.formsOf arms))
  | .this => ⟨rfl, fun levels _ => by cases levels <;> rfl⟩

theorem Expr.formsOf :
    (es : List Expr) → List.Forall₂ (FormOf Expr.decode) (Expr.encodeAll es) es
  | [] => .nil
  | e :: es => .cons (Expr.formOf e) (Expr.formsOf es)

theorem Expr.formOfOption : (e : Option Expr) →
    FormOf (fun levels => Json.nullable (Expr.decode levels)) (Expr.encodeOption e) e
  | none => .none
  | some e => .some (Expr.formOf e) e.encode_ne_null

theorem Body.formOf : (b : Body) → FormOf Body.decode b.encode b
  | .expr value => .tagged "Expression" (Expr.formOf value) rfl fun _ h => congrArg (Option.map _) h
  | .block stmts => by
    have hstmts := Stmt.formOf_all (Stmt.formsOf stmts)
    exact .tagged "Block" hstmts rfl fun _ h => congrArg (Option.map _) h

theorem Pattern.formOf : (p : Pattern) → FormOf Pattern.decode p.encode p
  | .default => ⟨rfl, fun levels _ => by cases levels <;> rfl⟩
  | .values values => by
    have hvalues := Expr.formOf_all (Expr.formsOf values)
    exact .tagged "Values" hvalues rfl fun _ h => congrArg (Option.map _) h

theorem MatchArm.formsOf :
    (arms : List MatchArm) → List.Forall₂ (FormOf MatchArm.decode) (MatchArm.encodeAll arms) arms
  | [] => .nil
  | ⟨pattern, result⟩ :: arms => by
    have hpattern := Pattern.formOf pattern
    have hresult := Body.formOf result
    refine .cons ?_ (MatchArm.formsOf arms)
    refine .record rfl (by simp [Json.fieldsComplete, hpattern.complete, hresult.complete]) ?_
    intro levels hlevels
    rw [MatchArm.decode, required_eq "pattern" hpattern rfl hlevels,
      required_eq "result" hresult rfl hlevels]
    rfl

theorem SwitchCase.formsOf : (cases : List SwitchCase) →
    List.Forall₂ (FormOf SwitchCase.decode) (SwitchCase.encodeAll cases) cases
  | [] => .nil
  | ⟨pattern, body⟩ :: cases => by
    have hpattern := Pattern.formOf pattern
    have hbody := Stmt.formOf_all (Stmt.formsOf body)
    refine .cons ?_ (SwitchCase.formsOf cases)
    refine .record rfl (by simp [Json.fieldsComplete, hpattern.complete, hbody.complete]) ?_
    intro levels hlevels
    rw [SwitchCase.decode, required_eq "pattern" hpattern rfl hlevels,
      required_eq "body" hbody rfl hlevels]
    rfl

theorem Attribute.formsOf : (attributes : List Attribute) →
    List.Forall₂ (FormOf Attribute.decode) (Attribute.encodeAll attributes) attributes
  | [] => .nil
  | ⟨name, args⟩ :: attributes => by
    have hname := FormOf.string name
    have hargs := Expr.formOf_all (Expr.formsOf args)
    refine .cons ?_ (Attribute.formsOf attributes)
    refine .record rfl (by simp [Json.fieldsComplete, hname.complete, hargs.complete]) ?_
    intro levels hlevels
    rw [Attribute.decode, required_eq "name" hname rfl hlevels,
      defaulted_eq "args" hargs rfl hlevels]
    rfl

theorem Parameter.formsOf : (params : List Parameter) →
    List.Forall₂ (FormOf Parameter.decode) (Parameter.encodeAll params) params
  | [] => .nil
  | ⟨name, type, default⟩ :: params => by
    have hname := FormOf.string name
    have htype := TypeRef.formOfOption type
    have hdefault := Expr.formOfOption default
    refine .cons ?_ (Parameter.formsOf params)
    refine .record rfl
      (by simp [Json.fieldsComplete, hname.complete, htype.complete, hdefault.complete]) ?_
    intro levels hlevels
    rw [Parameter.decode, required_eq "name" hname rfl hlevels, optional_eq "ty" htype rfl hlevels,
      optional_eq "default" hdefault rfl hlevels]
    rfl

theorem TypeDecl.formOf : (d : TypeDecl) → FormOf TypeDecl.decode d.encode d
  | ⟨name, modifiers, attributes, generics, base, interfaces, members⟩ => by
    have hname := FormOf.string name
    have hmodifiers := Modifier.formOf modifiers
    have hattributes := Attribute.formOf_all (Attribute.formsOf attributes)
    have hgenerics := GenericParam.formOfAll generics
    have hbase := TypeRef.formOfOption base
    have hinterfaces := TypeRef.formOfAll interfaces
    have hmembers := Stmt.formOf_all (Stmt.formsOf members)
    refine .record rfl (by
      simp [Json.fieldsComplete, hname.complete, hmodifiers.complete, hattributes.complete,
        hgenerics.complete, hbase.complete, hinterfaces.complete, hmembers.complete]) ?_
    intro levels hlevels
    rw [TypeDecl.decode, defaulted_eq "name" hname rfl hlevels,
      defaulted_eq "modifiers" hmodifiers rfl hlevels,
      defaulted_eq "attributes" hattributes rfl hlevels,
      defaulted_eq "generics" hgenerics rfl hlevels, optional_eq "base" hbase rfl hlevels,
      defaulted_eq "interfaces" hinterfaces rfl hlevels,
      defaulted_eq "members" hmembers rfl hlevels]
    rfl

theorem EnumVariant.formsOf : (variants : List EnumVariant) →
    List.Forall₂ (FormOf EnumVariant.decode) (EnumVariant.encodeAll variants) variants
  | [] => .nil
  | ⟨name, value⟩ :: variants => by
    have hname := FormOf.string name
    have hvalue := Expr.formOfOption value
    refine .cons ?_ (EnumVariant.formsOf variants)
    refine .record rfl (by simp [Json.fieldsComplete, hname.complete, hvalue.complete]) ?_
    intro levels hlevels
    rw [EnumVariant.decode, required_eq "name" hname rfl hlevels,
      optional_eq "value" hvalue rfl hlevels]
    rfl

theorem EnumDecl.formOf : (d : EnumDecl) → FormOf EnumDecl.decode d.encode d
  | ⟨name, modifiers, attributes, variants⟩ => by
    have hname := FormOf.string name
    have hmodifiers := Modifier.formOf modifiers
    have hattributes := Attribute.formOf_all (Attribute.formsOf attributes)
    have hvariants := EnumVariant.formOf_all (EnumVariant.formsOf variants)
    refine .record rfl (by
      simp [Json.fieldsComplete, hname.complete, hmodifiers.complete, hattributes.complete,
        hvariants.complete]) ?_
    intro levels hlevels
    rw [EnumDecl.decode, defaulted_eq "name" hname rfl hlevels,
      defaulted_eq "modifiers" hmodifiers rfl hlevels,
      defaulted_eq "attributes" hattributes rfl hlevels,
      defaulted_eq "variants" hvariants rfl hlevels]
    rfl

theorem ModuleDecl.formOf : (d : ModuleDecl) → FormOf ModuleDecl.decode d.encode d
  | ⟨name, modifiers, attributes, members⟩ => by
    have hname := FormOf.string name
    have hmodifiers := Modifier.formOf modifiers
    have hattributes := Attribute.formOf_all (Attribute.formsOf attributes)
    have hmembers := Stmt.formOf_all (Stmt.formsOf members)
    refine .record rfl (by
      simp [Json.fieldsComplete, hname.complete, hmodifiers.complete, hattributes.complete,
        hmembers.complete]) ?_
    intro levels hlevels
    rw [ModuleDecl.decode, defaulted_eq "name" hname rfl hlevels,
      defaulted_eq "modifiers" hmodifiers rfl hlevels,
      defaulted_eq "attributes" hattributes rfl hlevels,
      defaulted_eq "members" hmembers rfl hlevels]
    rfl

theorem Function.formOf : (d : Function) → FormOf Function.decode d.encode d
  | ⟨name, params, returnType, generics, modifiers, attributes, body, isConstructor, isStatic⟩ => by
    have hname := FormOf.string name
    have hparams := Parameter.formOf_all (Parameter.formsOf params)
    have hreturn := TypeRef.formOfOption returnType
    have hgenerics := GenericParam.formOfAll generics
    have hmodifiers := Modifier.formOf modifiers
    have hattributes := Attribute.formOf_all (Attribute.formsOf attributes)
    have hbody := Stmt.formOfBlock body
    have hconstructor := FormOf.bool isConstructor
    have hstatic := FormOf.bool isStatic
    refine .record rfl (by
      simp [Json.fieldsComplete, hname.complete, hparams.complete, hreturn.complete,
        hgenerics.complete, hmodifiers.complete, hattributes.complete, hbody.complete,
        hconstructor.complete, hstatic.complete]) ?_
    intro levels hlevels
    rw [Function.decode, defaulted_eq "name" hname rfl hlevels,
      defaulted_eq "params" hparams rfl hlevels, optional_eq "return_type" hreturn rfl hlevels,
      defaulted_eq "generics" hgenerics rfl hlevels,
      defaulted_eq "modifiers" hmodifiers rfl hlevels,
      defaulted_eq "attributes" hattributes rfl hlevels, optional_eq "body" hbody rfl hlevels,
      defaulted_eq "is_constructor" hconstructor rfl hlevels,
      defaulted_eq "is_static" hstatic rfl hlevels]
    rfl

theorem Field.formOf : (d : Field) → FormOf Field.decode d.encode d
  | ⟨name, type, modifiers, attributes, initializer⟩ => by
    have hname := FormOf.string name
    have htype := TypeRef.formOfOption type
    have hmodifiers := Modifier.formOf modifiers
    have hattributes := Attribute.formOf_all (Attribute.formsOf attributes)
    have hinitializer := Expr.formOfOption initializer
    refine .record rfl (by
      simp [Json.fieldsComplete, hname.complete, htype.complete, hmodifiers.complete,
        hattributes.complete, hinitializer.complete]) ?_
    intro levels hlevels
    rw [Field.decode, defaulted_eq "name" hname rfl hlevels, optional_eq "ty" htype rfl hlevels,
      defaulted_eq "modifiers" hmodifiers rfl hlevels,
      defaulted_eq "attributes" hattributes rfl hlevels,
      optional_eq "initializer" hinitializer rfl hlevels]
    rfl

theorem Accessor.formsOf : (accessors : List Accessor) →
    List.Forall₂ (FormOf Accessor.decode) (Accessor.encodeAll accessors) accessors
  | [] => .nil
  | ⟨kind, modifiers, body⟩ :: accessors => by
    have hkind : FormOf (fun levels => Json.unitTag levels AccessorKind.ofWord?)
        (.string kind.word) kind := .unitTag kind.ofWord?_word
    have hmodifiers := Modifier.formOf modifiers
    have hbody := Stmt.formOfBlock body
    refine .cons ?_ (Accessor.formsOf accessors)
    refine .record rfl
      (by simp [Json.fieldsComplete, hkind.complete, hmodifiers.complete, hbody.complete]) ?_
    intro levels hlevels
    rw [Accessor.decode, required_eq "kind" hkind rfl hlevels,
      defaulted_eq "modifiers" hmodifiers rfl hlevels, optional_eq "body" hbody rfl hlevels]
    rfl

theorem Property.formOf : (d : Property) → FormOf Property.decode d.encode d
  | ⟨name, type, modifiers, attributes, accessors, initializer⟩ => by
    have hname := FormOf.string name
    have htype := TypeRef.formOfOption type
    have hmodifiers := Modifier.formOf modifiers
    have hattributes := Attribute.formOf_all (Attribute.formsOf attributes)
    have haccessors := Accessor.formOf_all (Accessor.formsOf accessors)
    have hinitializer := Expr.formOfOption initializer
    refine .record rfl (by
      simp [Json.fieldsComplete, hname.complete, htype.complete, hmodifiers.complete,
        hattributes.complete, haccessors.complete, hinitializer.complete]) ?_
    intro levels hlevels
    rw [Property.decode, defaulted_eq "name" hname rfl hlevels, optional_eq "ty" htype rfl hlevels,
      defaulted_eq "modifiers" hmodifiers rfl hlevels,
      defaulted_eq "attributes" hattributes rfl hlevels,
      defaulted_eq "accessors" haccessors rfl hlevels,
      optional_eq "initializer" hinitializer rfl hlevels]
    rfl

theorem Binding.formOf : (d : Binding) → FormOf Binding.decode d.encode d
  | ⟨name, type, value, mutability⟩ => by
    have hname := FormOf.string name
    have htype := TypeRef.formOfOption type
    have hvalue := Expr.formOfOption value
    have hkind : FormOf (fun levels => Json.unitTag levels Mutability.ofWord?)
        (.string mutability.word) mutability := .unitTag mutability.ofWord?_word
    refine .record rfl (by
      simp [Json.fieldsComplete, hname.complete, htype.complete, hvalue.complete,
        hkind.complete]) ?_
    intro levels hlevels
    rw [Binding.decode, required_eq "name" hname rfl hlevels, optional_eq "ty" htype rfl hlevels,
      optional_eq "value" hvalue rfl hlevels, defaulted_eq "kind" hkind rfl hlevels]
    rfl

end

/-! ### Programs -/

/-- The form of a program is read back as the program, and no object in it is cut short: a
constructor with data has it as its one field, one without data is a string, a record has all of its
fields. A `return` without a value holds a null, and the words of declarations are in lower case. -/
theorem Program.decode_encode (p : Program) :
    Program.decode p.encode = some p ∧ p.encode.isComplete = true ∧
      (Stmt.ret none).encode = .object [("Return", .null)] ∧
      (∀ m : Modifier, m.word.toList.all Char.isLower = true) ∧
      (∀ k : AccessorKind, k.word.toList.all Char.isLower = true) ∧
      ∀ m : Mutability, m.word.toList.all Char.isLower = true := by
  have hunit : FormOf Stmt.decodeUnit p.encode p.stmts :=
    Stmt.formOf_unit (Stmt.formOf_all (Stmt.formsOf p.stmts))
  refine ⟨?_, hunit.complete, ?_, ?_, ?_, ?_⟩
  -- The reader is given as many levels as the form has.
  · rw [Program.decode, Program.decodeWithin, hunit.read_eq p.encode.depth (Nat.le_refl _)]
    rfl
  · rw [Stmt.encode, Expr.encodeOption, Json.tagged]
  · intro m
    cases m <;> decide
  · intro k
    cases k <;> decide
  · intro m
    cases m <;> decide

end SourceGen
