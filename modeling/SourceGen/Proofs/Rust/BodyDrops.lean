import SourceGen.Proofs.Drops
import SourceGen.Proofs.Mirrored
import SourceGen.Proofs.ThinCode
import SourceGen.Rust.Body

/-!
# Rust bodies without some marked declarations

Marked declarations in bodies add nothing but a report and a separator. So without some of them a
body is written in the same way, up to separators, and it requires the same imports and uses the
same labels. Bodies do not look at the traits of the unit, which may change with the declarations.

## Main results

* `Rust.mirrored_expr`: expressions without some declarations in the blocks inside them.
* `Rust.mirrored_stmts`: statements without some declarations.
* `Rust.mirrored_function`: functions without some declarations in their bodies.
* `Rust.idle_function`: a marked function.
-/

namespace SourceGen

namespace Rust

open Fragment (text)
open Gen (Blind Idle Mirrored)

/-- The same surroundings with other traits. -/
abbrev Env.withTraits (env : Env) (traits : Traits) : Env :=
  { env with traits }

variable {env : Env} {traits : Traits} {known : KnownTypes} {scope : Scope} {fns : Bool}

/-! ### Types -/

mutual

theorem blind_mapNormal : ∀ type : TypeRef, Blind (mapNormal known scope type)
  | ⟨name, args⟩ => by
    rw [mapNormal]
    split
    · exact .pure rfl
    · exact .pure rfl
    · refine .same (blind_mapNormalAll args) fun _ => ?_
      split
      · exact .same (.requireImport _) fun _ => .pure rfl
      · exact .pure rfl
    · exact (blind_mapNormalAll args).mapEq _
    · exact (blind_mapNormalAll args).mapEq _
    · exact .same (.report _ _) fun _ => .pure rfl

theorem blind_mapNormalAll : ∀ types : List TypeRef, Blind (mapNormalAll known scope types)
  | [] => .pure rfl
  | t :: ts => .same (blind_mapNormal t) fun _ => (blind_mapNormalAll ts).mapEq _

end

/-- The spelling of a type reports nothing that depends on the traits. -/
theorem blind_mapType (type : TypeRef) : Blind (mapType known scope type) :=
  blind_mapNormal type.normalize

theorem blind_mapTypes (types : List TypeRef) : Blind (mapTypes known scope types) :=
  .mapM blind_mapType types

/-! ### Parts of expressions -/

section Fragments

variable {e e' : Expr} {f f' g g' : Fragment}

/-- Operands alike are put in parentheses alike. -/
theorem same_grouped (he : e.Drops fns e') (hf : Fragment.Same fns f f') :
    Fragment.Same fns (grouped e f) (grouped e' f') := by
  have hparens : needsParens e = needsParens e' := he.congr fun e => by cases e <;> rfl
  unfold grouped
  rw [hparens]
  split
  · simp [hf]
  · exact hf

/-- Values alike are owned alike. -/
theorem same_owned (he : e.Drops fns e') (hf : Fragment.Same fns f f') :
    Fragment.Same fns (owned e f) (owned e' f') := by
  unfold owned
  rw [he.isStringLiteral]
  split
  · simp [hf]
  · exact hf

theorem same_chainable (hf : Fragment.Same fns f f') :
    Fragment.Same fns (chainable f) (chainable f') := by
  unfold chainable
  rw [hf.allChars]
  split
  · exact hf
  · simp [hf]

theorem same_unaryText (op : Token) (trailing : Bool) (hf : Fragment.Same fns f f') :
    Fragment.Same fns (unaryText op trailing f) (unaryText op trailing f') := by
  unfold unaryText
  split
  · split <;> simp [hf]
  · split
    · exact hf
    · simp [hf]

theorem same_binaryText (op : Token) (he : e.Drops fns e') (hf : Fragment.Same fns f f')
    (hg : Fragment.Same fns g g') :
    Fragment.Same fns (binaryText e op f g) (binaryText e' op f' g') := by
  have hchain := same_chainable hf
  unfold binaryText
  rw [he.isStringLiteral]
  split
  · simp [hchain, hg]
  · split
    · simp [hf, hg]
    · split <;> simp [hf, hg]

/-- A builtin is called alike on arguments alike. -/
theorem same_builtinCall (fn : Builtin) (argCount : Nat) (hf : Fragment.Same fns f f') :
    Fragment.Same fns (builtinCall fn argCount f) (builtinCall fn argCount f') := by
  have hchain := same_chainable hf
  cases fn with
  | print =>
    unfold builtinCall
    dsimp only
    split
    · rfl
    · simp [hf]
  | len | str => simp [builtinCall, hchain]
  | abs | min | max | sqrt => simp [builtinCall, hf]

/-- Values alike are returned alike. -/
theorem same_returned (he : e.Drops fns e') (hf : Fragment.Same fns f f') :
    Fragment.Same fns (returned e f) (returned e' f') := by
  have howned := same_owned he hf
  cases e with
  | member object name =>
    obtain ⟨object', rfl, h⟩ := he
    unfold returned
    dsimp only
    rw [h.rootedInThis]
    split
    · simp [howned]
    · exact howned
  | literal | ident | path | this =>
    obtain rfl := he
    exact howned
  | unary | construct | array | block =>
    obtain ⟨_, rfl, _⟩ := he
    exact howned
  | index | binary | assign | call | lambda | range | matchOn =>
    obtain ⟨_, _, rfl, _⟩ := he
    exact howned

theorem same_iterated (he : e.Drops fns e') (hf : Fragment.Same fns f f') :
    Fragment.Same fns (iterated e f) (iterated e' f') := by
  have hform : iterated e f = iterated e' f :=
    he.congr (f := (iterated · f)) fun e => by cases e <;> rfl
  rw [hform]
  cases e' <;> simp [iterated, hf]

/-- Subjects alike are matched alike when the same kinds of pattern follow. -/
theorem same_subjectText {patterns patterns' : List Pattern}
    (hpatterns : Pattern.anyString patterns = Pattern.anyString patterns')
    (he : e.Drops fns e') (hf : Fragment.Same fns f f') :
    Fragment.Same fns (subjectText e patterns f) (subjectText e' patterns' f') := by
  have hgrouped := same_grouped he hf
  unfold subjectText
  rw [hpatterns]
  split
  · simp [hgrouped]
  · exact hgrouped

/-- Whether an expression names a type does not depend on the traits or the dropped declarations. -/
theorem typeName?_withTraits (he : e.Drops fns e') :
    typeName? env e = typeName? (env.withTraits traits) e' :=
  he.congr (f := typeName? env) fun e => by cases e <;> rfl

theorem mirrored_arrayLiteral (isEmpty : Bool) (hf : Fragment.Same fns f f')
    (elementType : Option TypeRef) :
    Mirrored (Fragment.Same fns) (arrayLiteral env scope isEmpty f elementType)
      (arrayLiteral (env.withTraits traits) scope isEmpty f' elementType) := by
  unfold arrayLiteral
  cases elementType with
  | none =>
    dsimp only
    split
    · exact .pure rfl
    · exact .pure (by simp [hf])
  | some type =>
    refine .same (blind_mapType type) fun _ => ?_
    split
    · exact .pure rfl
    · exact .pure (by simp [hf])

/-- Matches alike have arms alike, and the same arm is added where none catches the rest. -/
theorem same_matchCode {patterns patterns' : List Pattern} {arms arms' : List Code}
    (hpatterns : Pattern.anyDefault patterns = Pattern.anyDefault patterns')
    (hf : Fragment.Same fns f f') (harms : Code.Same fns arms arms') :
    Code.Same fns [matchCode f patterns arms] [matchCode f' patterns' arms'] := by
  unfold matchCode
  rw [hpatterns]
  split <;> simp [hf, harms]

end Fragments

theorem blind_lambdaHead (params : List Parameter) : Blind (lambdaHead env scope params) := by
  unfold lambdaHead
  refine .same (.mapM (fun p => ?_) params) fun _ => .pure rfl
  split
  · exact .same (blind_mapType _) fun _ => .pure rfl
  · exact .pure rfl

/-- The parameters of a lambda are written without their default values. -/
theorem mirrored_lambdaHead {params params' : List Parameter}
    (h : Parameter.DropsAll fns params params') :
    Mirrored Eq (lambdaHead env scope params)
      (lambdaHead (env.withTraits traits) scope params') := by
  have hbare : ∀ params : List Parameter, lambdaHead env scope params =
      lambdaHead env scope (params.map fun p => ⟨p.name, p.type, none⟩) := fun params => by
    unfold lambdaHead
    simp only [List.mapM_map]
    rfl
  change Mirrored Eq (lambdaHead env scope params) (lambdaHead env scope params')
  rw [hbare params, h.bare, ← hbare params']
  exact blind_lambdaHead params'

/-! ### Parts of declarations -/

/-- A missing type is inferred alike from values alike. -/
theorem mirrored_typeOr (name : String) (type : Option TypeRef) {o o' : Option Expr}
    (h : Expr.DropsOption fns o o') :
    Mirrored Eq (typeOr env scope name type o)
      (typeOr (env.withTraits traits) scope name type o') := by
  have hinferred : inferredType name o = inferredType name o' := by
    cases o with
    | none =>
      obtain rfl := h
      rfl
    | some e =>
      obtain ⟨e', rfl, he⟩ := h
      exact he.congr (f := fun e => inferredType name (some e)) fun e => by cases e <;> rfl
  cases type with
  | some type => exact blind_mapType type
  | none =>
    change Mirrored Eq (inferredType name o) (inferredType name o')
    rw [hinferred]
    unfold inferredType
    dsimp only
    split
    · exact .pure rfl
    · exact .same (.report _ _) fun _ => .pure rfl

theorem mirrored_parameters {ps ps' : List Parameter} (h : Parameter.DropsAll fns ps ps') :
    Mirrored Eq (parameters env scope ps) (parameters (env.withTraits traits) scope ps') := by
  induction ps generalizing ps' with
  | nil =>
    obtain rfl := h
    exact .pure rfl
  | cons p ps ih =>
    obtain ⟨name, type, o⟩ := p
    obtain ⟨o', ps', rfl, h, hs⟩ := h
    refine .same (mirrored_typeOr name type h) fun _ => ?_
    have hrest : Mirrored Eq (parameters env scope ps)
        (parameters (env.withTraits traits) scope ps') :=
      ih hs
    dsimp only
    rw [h.isSome]
    split
    · exact .same (.report _ _) fun _ => hrest.mapEq _
    · exact hrest.mapEq _

theorem blind_genericParams (generics : List GenericParam) :
    Blind (genericParams env scope generics) := by
  unfold genericParams
  refine .same (.mapM (fun g => ?_) generics) fun _ => .pure rfl
  split
  · exact .pure rfl
  · exact .same (blind_mapTypes _) fun _ => .pure rfl

/-- A missing return type is inferred alike from bodies alike. -/
theorem mirrored_returnSpelling (name : String) (declared : Option TypeRef)
    {body body' : Option (List Stmt)} (h : Stmt.DropsBody fns body body') :
    Mirrored Eq (returnSpelling env scope name declared body)
      (returnSpelling (env.withTraits traits) scope name declared body') := by
  unfold returnSpelling
  rw [h.any_returnsValue]
  cases declared with
  | some type => exact blind_mapType type
  | none =>
    dsimp only
    split
    · exact .same (.report _ _) fun _ => .pure rfl
    · exact .pure rfl

/-! ### Marked functions -/

section Marked

variable {place : Place}

/-- Nothing is written for a marked function. -/
theorem idle_function {options : FunctionOptions} {prologue : Place → Gen (List Code)}
    {f : Function} (h : f.marker.isSome = true) :
    Idle (· = []) (function env place options prologue f) := by
  obtain ⟨_, _, _, _, _, _, _, _, _⟩ := f
  rw [function]
  exact target.idle_unlessMarked h rfl

/-- A dropped declaration leaves a separator at most. -/
theorem idle_stmt {s : Stmt} (h : s.droppable fns = true) :
    Idle (fun code => Code.thinAll fns code = []) (stmt env place s) := by
  cases s with
  | functionDecl kind f =>
    obtain ⟨rfl, hmarker⟩ := Bool.and_eq_true_iff.mp h
    refine (idle_function hmarker).map fun code hcode => ?_
    rw [hcode]
    rfl
  | fieldDecl | propertyDecl =>
    exact (target.idle_refuseInBody _ _).mono fun code hcode => by simp [hcode]
  | _ => cases h

/-! ### The induction over the tree -/

/-- All but the last statement of a value block are plain statements. -/
theorem valueBlock_cons (s s' : Stmt) (ss : List Stmt) :
    valueBlock env place (s :: s' :: ss) = do
      return (← stmt env place s) ++ (← valueBlock env place (s' :: ss)) := by
  cases s <;> rfl

/-- A last statement that is no value is a plain one. -/
theorem valueBlock_single {s : Stmt} (h : Stmt.ending [s] ≠ .value) :
    valueBlock env place [s] = do
      return (← stmt env place s) ++ [] := by
  cases s with
  | expr => exact absurd rfl h
  | _ => rfl

/-- What is not a lone `if` is an ordinary branch. -/
theorem elseChain_block {ss : List Stmt} (h : Stmt.isLoneIf ss = false) :
    elseChain env place (some ss) = do
      return [.mk (text "else") (← stmts env place ss)] := by
  rcases ss with _ | ⟨s, _ | ⟨s', ss⟩⟩
  · rfl
  · cases s with
    | ifThen => cases h
    | _ => rfl
  · cases s <;> rfl

mutual

/-- An expression is written alike without the dropped declarations, by induction on its syntax. -/
theorem mirrored_expr (place : Place) (position : Position) : ∀ {e e' : Expr}, e.Drops fns e' →
    Mirrored (Fragment.Same fns) (expr env place position e)
      (expr (env.withTraits traits) place position e')
  | .literal _ | .ident _ | .path _ | .this => by
    rintro rfl
    exact .pure rfl
  | .member object name => by
    rintro ⟨object', rfl, h⟩
    have hobject := mirrored_expr place .value h
    have hname : typeName? env _ = typeName? (env.withTraits traits) _ := typeName?_withTraits h
    rw [expr, expr, hname]
    split
    · exact .pure rfl
    · exact hobject.map fun _ _ hf => by simp [same_grouped h hf]
  | .index _ _ => by
    rintro ⟨_, _, rfl, h, hi⟩
    refine .bind (mirrored_expr place .value h) fun _ _ hf => ?_
    exact (mirrored_expr place .value hi).map fun _ _ hg => by simp [same_grouped h hf, hg]
  | .binary _ _ _ => by
    rintro ⟨_, _, rfl, hl, hr⟩
    refine .bind (mirrored_expr place .value hl) fun _ _ hf => ?_
    exact (mirrored_expr place .value hr).map fun _ _ hg =>
      same_binaryText _ hl (same_grouped hl hf) (same_grouped hr hg)
  | .unary _ _ _ => by
    rintro ⟨_, rfl, h⟩
    refine .bind (mirrored_expr place .value h) fun _ _ hf => ?_
    split
    · exact .pure (by simp [hf])
    · exact .pure (same_unaryText _ _ (same_grouped h hf))
  | .assign _ _ _ => by
    rintro ⟨_, _, rfl, hl, hr⟩
    refine .bind (mirrored_expr place .value hl) fun _ _ hf => ?_
    exact (mirrored_expr place .value hr).map fun _ _ hg => by simp [hf, hg]
  | .call callee args => by
    rintro ⟨callee', args', rfl, h, hargs⟩
    have hexprs := mirrored_exprs place hargs
    have howned := mirrored_ownedExprs place hargs
    have hlength := hargs.length
    have hcallee := mirrored_expr place .value h
    -- A callee without a form of its own is written in parentheses.
    have hother : Mirrored (Fragment.Same fns)
        (do
          let head := Fragment.parens (← expr env place .value callee)
          let rendered := Fragment.join ", " (← ownedExprs env place args)
          return head ++ text "(" ++ rendered ++ text ")")
        (do
          let head := Fragment.parens (← expr (env.withTraits traits) place .value callee')
          let rendered := Fragment.join ", " (← ownedExprs (env.withTraits traits) place args')
          return head ++ text "(" ++ rendered ++ text ")") :=
      .bind hcallee fun _ _ hf => howned.map fun _ _ hfs => by simp [hf, hfs]
    cases callee with
    | ident name =>
      obtain rfl := h
      rw [expr, expr]
      split
      · rw [hlength]
        exact hexprs.map fun _ _ hfs => same_builtinCall _ _ (by simp [hfs])
      · exact howned.map fun _ _ hfs => by simp [hfs]
    | path parts =>
      obtain rfl := h
      exact howned.map fun _ _ hfs => by simp [hfs]
    | member receiver name =>
      obtain ⟨receiver', rfl, h⟩ := h
      have hreceiver := mirrored_expr place .value h
      have hname : typeName? env _ = typeName? (env.withTraits traits) _ := typeName?_withTraits h
      rw [expr, expr, hname]
      split
      · exact howned.map fun _ _ hfs => by simp [hfs]
      · refine .bind hreceiver fun _ _ hf => howned.map fun _ _ hfs => ?_
        simp [same_grouped h hf, hfs]
    | literal | this =>
      obtain rfl := h
      exact hother
    | unary | construct | array | block =>
      obtain ⟨_, rfl, _⟩ := h
      exact hother
    | index | binary | assign | call | lambda | range | matchOn =>
      obtain ⟨_, _, rfl, _⟩ := h
      exact hother
  | .construct type _ => by
    rintro ⟨_, rfl, h⟩
    refine .same (blind_mapType type) fun _ => (mirrored_ownedExprs place h).map fun _ _ hfs => ?_
    simp [hfs]
  | .array _ elementType => by
    rintro ⟨_, rfl, h⟩
    refine .bind (mirrored_ownedExprs place h) fun _ _ hfs => ?_
    rw [h.isEmpty]
    exact mirrored_arrayLiteral _ (by simp [hfs]) elementType
  | .lambda _ (.expr _) => by
    rintro ⟨_, _, rfl, hparams, _, rfl, h⟩
    refine .same (mirrored_lambdaHead hparams) fun _ => ?_
    exact (mirrored_expr place.closure .value h).map fun _ _ hf => by simp [hf]
  | .lambda _ (.block _) => by
    rintro ⟨_, _, rfl, hparams, _, rfl, h⟩
    refine .same (mirrored_lambdaHead hparams) fun _ => ?_
    exact (mirrored_stmts place.closure h).map fun _ _ hc => by simp [hc]
  | .range _ _ _ => by
    rintro ⟨_, _, rfl, ha, hb⟩
    refine .bind (mirrored_operandOption place ha) fun _ _ ho => ?_
    refine .bind (mirrored_operandOption place hb) fun last last' hlast => ?_
    -- Both ranges have an end or neither has.
    cases last with
    | none =>
      obtain rfl : last' = none := by simpa using hlast.symm
      exact .pure (by simp [ho])
    | some f =>
      obtain ⟨f', rfl, hf⟩ :
          ∃ f', last' = some f' ∧ Piece.thinAll fns f' = Piece.thinAll fns f := by
        simpa using hlast.symm
      exact .pure (by simp [ho, hf])
  | .block _ => by
    rintro ⟨_, rfl, hend, h⟩
    exact (mirrored_valueBlock place h hend).map fun _ _ hc => by simp [hc]
  | .matchOn _ _ => by
    rintro ⟨_, _, rfl, h, harms⟩
    refine .bind (mirrored_expr place .value h) fun _ _ hf => ?_
    refine (mirrored_matchArms place harms).map fun _ _ hfs => ?_
    have hsubject := same_subjectText harms.kinds.2 h hf
    rw [harms.kinds.1]
    split <;> simp [hsubject, Piece.thinArms_eq_map, hfs]
termination_by structural e => e

theorem mirrored_exprs (place : Place) : ∀ {es es' : List Expr}, Expr.DropsAll fns es es' →
    Mirrored (Fragment.SameAll fns) (exprs env place es) (exprs (env.withTraits traits) place es')
  | [] => by
    rintro rfl
    exact .pure rfl
  | _ :: _ => by
    rintro ⟨_, _, rfl, h, hs⟩
    refine .bind (mirrored_expr place .value h) fun _ _ hf => ?_
    exact (mirrored_exprs place hs).map fun _ _ hfs => by simp [hf, hfs]
termination_by structural es => es

theorem mirrored_ownedExprs (place : Place) : ∀ {es es' : List Expr}, Expr.DropsAll fns es es' →
    Mirrored (Fragment.SameAll fns) (ownedExprs env place es)
      (ownedExprs (env.withTraits traits) place es')
  | [] => by
    rintro rfl
    exact .pure rfl
  | _ :: _ => by
    rintro ⟨_, _, rfl, h, hs⟩
    refine .bind (mirrored_expr place .value h) fun _ _ hf => ?_
    exact (mirrored_ownedExprs place hs).map fun _ _ hfs => by simp [same_owned h hf, hfs]
termination_by structural es => es

theorem mirrored_operandOption (place : Place) : ∀ {o o' : Option Expr},
    Expr.DropsOption fns o o' →
    Mirrored (Fragment.SameOption fns) (operandOption env place o)
      (operandOption (env.withTraits traits) place o')
  | none => by
    rintro rfl
    exact .pure rfl
  | some _ => by
    rintro ⟨_, rfl, h⟩
    exact (mirrored_expr place .value h).map fun _ _ hf => by simp [same_grouped h hf]
termination_by structural o => o

theorem mirrored_ownedOption (place : Place) : ∀ {o o' : Option Expr},
    Expr.DropsOption fns o o' →
    Mirrored (Fragment.SameOption fns) (ownedOption env place o)
      (ownedOption (env.withTraits traits) place o')
  | none => by
    rintro rfl
    exact .pure rfl
  | some _ => by
    rintro ⟨_, rfl, h⟩
    exact (mirrored_expr place .value h).map fun _ _ hf => by simp [same_owned h hf]
termination_by structural o => o

/-- A value block is written alike when it ends alike. -/
theorem mirrored_valueBlock (place : Place) : ∀ {ss ts : List Stmt}, Stmt.DropsAll fns ss ts →
    Stmt.ending ss = Stmt.ending ts →
    Mirrored (Code.Same fns) (valueBlock env place ss)
      (valueBlock (env.withTraits traits) place ts)
  | [] => by
    rintro rfl -
    exact .pure rfl
  | [s] => by
    rintro (⟨hs, rfl⟩ | ⟨t, _, rfl, hs, rfl⟩) hend
    · have hvalue : Stmt.ending [s] ≠ .value := by
        rw [hend]
        nofun
      rw [valueBlock_single hvalue]
      exact .idle (idle_stmt hs) fun _ hc => .pure (by simp [hc])
    · have hstmt := mirrored_stmt place hs
      have hother : Stmt.ending [s] ≠ .value → Mirrored (Code.Same fns) (valueBlock env place [s])
          (valueBlock (env.withTraits traits) place [t]) := by
        intro hvalue
        rw [valueBlock_single hvalue, valueBlock_single (hend ▸ hvalue)]
        exact hstmt.map fun _ _ hc => by simp [hc]
      cases s with
      | expr value =>
        obtain ⟨value', rfl, h⟩ := hs
        have hstep : isStep value = isStep value' := h.congr fun e => by cases e <;> rfl
        have hstatement := mirrored_expr place .statement h
        have hvalue := mirrored_expr place .value h
        rw [valueBlock, valueBlock, hstep]
        split
        · exact hstatement.map fun _ _ hf => by simp [hf]
        · exact hvalue.map fun _ _ hf => by simp [hf]
      | _ => exact hother nofun
  | s :: s' :: ss => by
    rintro (⟨hs, h⟩ | ⟨t, us, rfl, hs, h⟩) hend
    · rw [valueBlock_cons]
      exact .idle (idle_stmt hs) fun _ hc =>
        (mirrored_valueBlock place h hend).mapLeft fun _ _ hd => by simp [hc, hd]
    · have hstmt := mirrored_stmt place hs
      rw [valueBlock_cons]
      cases us with
      | cons u us =>
        rw [valueBlock_cons]
        refine .bind hstmt fun _ _ hc => ?_
        exact (mirrored_valueBlock place h hend).map fun _ _ hd => by simp [hc, hd]
      | nil =>
        -- Nothing is left behind the statement, so it is no value.
        have hother : Stmt.ending [t] = .other := hend.symm.trans h.ending_of_nil
        have hrest : Idle _ (valueBlock env place (s' :: ss)) :=
          (mirrored_valueBlock place h h.ending_of_nil).idle_of_pure
        rw [valueBlock_single (by rw [hother]; nofun)]
        exact .bind hstmt fun _ _ hc => .idle hrest fun _ hd => .pure (by simp [hc, hd])
termination_by structural ss => ss

theorem mirrored_matchArms (place : Place) : ∀ {arms arms' : List MatchArm},
    MatchArm.DropsAll fns arms arms' →
    Mirrored (Fragment.SameAll fns) (matchArms env place arms)
      (matchArms (env.withTraits traits) place arms')
  | [] => by
    rintro rfl
    exact .pure rfl
  | ⟨_, .expr _⟩ :: _ => by
    rintro ⟨_, _, _, rfl, hp, h, harms⟩
    refine .bind (mirrored_armPattern place hp) fun _ _ hsel => ?_
    refine .bind (mirrored_expr place .value h) fun _ _ hf => ?_
    refine (mirrored_matchArms place harms).map fun _ _ hfs => ?_
    simp [hsel, same_owned h hf, hfs]
  | ⟨_, .block _⟩ :: _ => by
    rintro ⟨_, _, _, rfl, hp, hjump, h, harms⟩
    refine .bind (mirrored_armPattern place hp) fun _ _ hsel => ?_
    refine .bind (mirrored_stmts place.closure h) fun _ _ hc => ?_
    refine (mirrored_matchArms place harms).map fun _ _ hfs => ?_
    rw [hjump.1]
    split <;> simp [hsel, hc, hfs]
termination_by structural arms => arms

theorem mirrored_armPattern (place : Place) : ∀ {p p' : Pattern}, p.Drops fns p' →
    Mirrored (Fragment.Same fns) (armPattern env place p)
      (armPattern (env.withTraits traits) place p')
  | .default => by
    rintro rfl
    exact .pure rfl
  | .values _ => by
    rintro ⟨_, rfl, h⟩
    exact (mirrored_exprs place h).map fun _ _ hfs => by simp [hfs]
termination_by structural p => p

/-- A kept statement is written alike without the dropped declarations inside it. -/
theorem mirrored_stmt (place : Place) : ∀ {s t : Stmt}, s.Drops fns t →
    Mirrored (Code.Same fns) (stmt env place s) (stmt (env.withTraits traits) place t)
  | .binding _ => by
    rintro ⟨_, rfl, h⟩
    exact (mirrored_binding place false h).map fun _ _ hf => by simp [hf]
  | .ifThen _ _ _ => by
    rintro ⟨_, _, _, rfl, he, hs, ho⟩
    refine .bind (mirrored_expr place .value he) fun _ _ hf => ?_
    refine .bind (mirrored_stmts place hs) fun _ _ hc => ?_
    exact (mirrored_elseChain place ho).map fun _ _ hd => by simp [hf, hc, hd]
  | .whileLoop _ _ => by
    rintro ⟨_, _, rfl, he, hs⟩
    refine .bind (mirrored_expr place .value he) fun _ _ hf => ?_
    exact (mirrored_stmts (place.inLoop none) hs).map fun _ _ hc => by simp [hf, hc]
  | .forLoop start condition step body => by
    rintro ⟨start', condition', step', body', rfl, hstart, he, hstep, hs⟩
    have hlast := mirrored_stepLine place hstep
    refine .bind (mirrored_forClause place hstart) fun first first' hfirst => ?_
    refine .bind (mirrored_loopHeader place he) fun header header' hheader => ?_
    -- The step and the block around the loop come behind the body, with a label or without.
    have hfinish : ∀ {inner inner' : List Code}, Code.Same fns inner inner' →
        Mirrored (Code.Same fns)
          (do
            let last ← stepLine env place step
            let loop : Code := .block (.loop none) header (inner ++ last) ""
            return if start.isSome then [.braces (first ++ [loop])] else [loop])
          (do
            let last ← stepLine (env.withTraits traits) place step'
            let loop : Code := .block (.loop none) header' (inner' ++ last) ""
            return if start'.isSome then [.braces (first' ++ [loop])] else [loop]) := by
      intro inner inner' hinner
      refine hlast.map fun _ _ hc => ?_
      rw [hstart.isSome]
      split <;> simp [hfirst, hheader, hinner, hc]
    dsimp only
    -- The scan that asks for the label looks into no declaration.
    rw [hstep.isSome, hs.flow.2.1]
    split
    · refine .same .freshLabel fun label => ?_
      refine .bind (mirrored_stmts (place.inLoop (some label)) hs) fun _ _ hc => ?_
      exact hfinish (by simp [hc])
    · exact .bind (mirrored_stmts (place.inLoop none) hs) fun _ _ hc => hfinish hc
  | .forEach _ _ _ _ => by
    rintro ⟨_, _, rfl, he, hs⟩
    refine .bind (mirrored_expr place .value he) fun _ _ hf => ?_
    refine (mirrored_stmts (place.inLoop none) hs).map fun _ _ hc => ?_
    simp [same_iterated he hf, hc]
  | .ret none => by
    rintro ⟨_, rfl, rfl⟩
    exact .pure rfl
  | .ret (some _) => by
    rintro ⟨_, rfl, _, rfl, h⟩
    exact (mirrored_expr place .value h).map fun _ _ hf => by simp [same_returned h hf]
  | .breakLoop | .continueLoop => by
    rintro rfl
    exact .pure rfl
  | .matchOn _ _ => by
    rintro ⟨_, _, rfl, he, harms⟩
    refine .bind (mirrored_expr place .value he) fun _ _ hf => ?_
    exact (mirrored_matchCases place harms).map fun _ _ hc =>
      same_matchCode harms.kinds.1 (same_subjectText harms.kinds.2 he hf) hc
  | .switchOn _ _ => by
    rintro ⟨_, _, rfl, he, hcases⟩
    refine .bind (mirrored_expr place .value he) fun _ _ hf => ?_
    exact (mirrored_switchCases place hcases).map fun _ _ hc =>
      same_matchCode hcases.kinds.1 (same_subjectText hcases.kinds.2 he hf) hc
  | .expr value => by
    rintro ⟨value', rfl, h⟩
    have hvalue := mirrored_expr place .statement h
    -- Only a match is written in another way as a statement than as a value.
    have hother : Mirrored (Code.Same fns)
        (do return [.line ((← expr env place .statement value) ++ text ";")])
        (do return [.line ((← expr (env.withTraits traits) place .statement value') ++
          text ";")]) :=
      hvalue.map fun _ _ hf => by simp [hf]
    cases value with
    | matchOn scrutinee arms =>
      obtain ⟨_, _, rfl, he, harms⟩ := h
      refine .bind (mirrored_expr place .value he) fun _ _ hf => ?_
      exact (mirrored_matchCases place harms).map fun _ _ hc =>
        same_matchCode harms.kinds.1 (same_subjectText harms.kinds.2 he hf) hc
    | literal | ident | path | this =>
      obtain rfl := h
      exact hother
    | member | unary | construct | array | block =>
      obtain ⟨_, rfl, _⟩ := h
      exact hother
    | index | binary | assign | call | lambda | range =>
      obtain ⟨_, _, rfl, _⟩ := h
      exact hother
  | .raw block => by
    rintro rfl
    exact (target.blind_rawCode block).mono fun _ _ h => congrArg _ h
  | .functionDecl _ _ => by
    rintro ⟨_, rfl, h⟩
    exact (mirrored_function place.closure _ (fun _ => .pure rfl) h).map fun _ _ hc => by simp [hc]
  | .typeDecl _ _ | .enumDecl _ => by
    rintro ⟨_, rfl, _⟩
    exact .fail _
  | .importDecl _ | .aliasDecl _ => by
    rintro rfl
    exact .same (.report _ _) fun _ => .pure rfl
  | .includeDecl _ _ | .namespaceDecl _ _ | .moduleDecl _ | .fieldDecl _ | .propertyDecl _ => by
    rintro ⟨_, rfl, _⟩
    exact .same (.report _ _) fun _ => .pure rfl
termination_by structural s => s

/-- A block is written alike without its dropped declarations. -/
theorem mirrored_stmts (place : Place) : ∀ {ss ts : List Stmt}, Stmt.DropsAll fns ss ts →
    Mirrored (Code.Same fns) (stmts env place ss) (stmts (env.withTraits traits) place ts)
  | [] => by
    rintro rfl
    exact .pure rfl
  | _ :: _ => by
    rintro (⟨hs, h⟩ | ⟨_, _, rfl, hs, h⟩)
    · exact .idle (idle_stmt hs) fun _ hc =>
        (mirrored_stmts place h).mapLeft fun _ _ hd => by simp [hc, hd]
    · refine .bind (mirrored_stmt place hs) fun _ _ hc => ?_
      exact (mirrored_stmts place h).map fun _ _ hd => by simp [hc, hd]
termination_by structural ss => ss

theorem mirrored_binding (place : Place) (forceMutable : Bool) : ∀ {b b' : Binding},
    b.Drops fns b' →
    Mirrored (Fragment.Same fns) (binding env place forceMutable b)
      (binding (env.withTraits traits) place forceMutable b')
  | ⟨_, type, _, _⟩ => by
    rintro ⟨_, rfl, h⟩
    refine .same (.optionMapM blind_mapType type) fun _ => ?_
    exact (mirrored_ownedOption place h).map fun _ _ ho => by simp [ho]
termination_by structural b => b

/-- The start of a counted loop is written alike. -/
theorem mirrored_forClause (place : Place) : ∀ {o o' : Option Stmt}, Stmt.DropsStart fns o o' →
    Mirrored (Code.Same fns) (forClause env place o) (forClause (env.withTraits traits) place o')
  | none => by
    rintro rfl
    exact .pure rfl
  | some s => by
    rintro ⟨t, rfl, h⟩
    have hother : Mirrored (Code.Same fns)
        (do Gen.report (.noLoopStart s); return []) (do Gen.report (.noLoopStart t); return []) :=
      .same (.report _ _) fun _ => .pure rfl
    cases s with
    | binding b =>
      obtain ⟨_, rfl, h⟩ := h
      exact (mirrored_binding place true h).map fun _ _ hf => by simp [hf]
    | expr value =>
      obtain ⟨_, rfl, h⟩ := h
      exact (mirrored_expr place .statement h).map fun _ _ hf => by simp [hf]
    | importDecl | aliasDecl | breakLoop | continueLoop | raw =>
      obtain rfl := h
      exact hother
    | includeDecl | namespaceDecl | typeDecl | enumDecl | moduleDecl | functionDecl | fieldDecl
    | propertyDecl | ret =>
      obtain ⟨_, rfl, _⟩ := h
      exact hother
    | whileLoop | forEach | matchOn | switchOn =>
      obtain ⟨_, _, rfl, _⟩ := h
      exact hother
    | ifThen =>
      obtain ⟨_, _, _, rfl, _⟩ := h
      exact hother
    | forLoop =>
      obtain ⟨_, _, _, _, rfl, _⟩ := h
      exact hother
termination_by structural o => o

theorem mirrored_loopHeader (place : Place) : ∀ {o o' : Option Expr}, Expr.DropsOption fns o o' →
    Mirrored (Fragment.Same fns) (loopHeader env place o)
      (loopHeader (env.withTraits traits) place o')
  | none => by
    rintro rfl
    exact .pure rfl
  | some _ => by
    rintro ⟨_, rfl, h⟩
    exact (mirrored_expr place .value h).map fun _ _ hf => by simp [hf]
termination_by structural o => o

theorem mirrored_stepLine (place : Place) : ∀ {o o' : Option Expr}, Expr.DropsOption fns o o' →
    Mirrored (Code.Same fns) (stepLine env place o) (stepLine (env.withTraits traits) place o')
  | none => by
    rintro rfl
    exact .pure rfl
  | some _ => by
    rintro ⟨_, rfl, h⟩
    exact (mirrored_expr place .statement h).map fun _ _ hf => by simp [hf]
termination_by structural o => o

/-- The branches behind an `if` are written alike. -/
theorem mirrored_elseChain (place : Place) : ∀ {o o' : Option (List Stmt)},
    Stmt.DropsElse fns o o' →
    Mirrored (Branch.Same fns) (elseChain env place o) (elseChain (env.withTraits traits) place o')
  | none => by
    rintro rfl
    exact .pure rfl
  | some ss => by
    rintro ⟨ts, rfl, hif, h⟩
    have hblock := mirrored_stmts place h
    cases hlone : Stmt.isLoneIf ss with
    | false =>
      rw [elseChain_block hlone, elseChain_block (hif.symm.trans hlone)]
      exact hblock.map fun _ _ hc => by simp [hc]
    | true =>
      rcases ss with _ | ⟨s, _ | ⟨s', ss⟩⟩
      · cases hlone
      · cases s with
        | ifThen condition thenBranch elseBranch =>
          obtain ⟨hs, -⟩ | ⟨_, _, rfl, ⟨_, _, _, rfl, he, hs, ho⟩, rfl⟩ := h
          · cases hs
          · refine .bind (mirrored_expr place .value he) fun _ _ hf => ?_
            refine .bind (mirrored_stmts place hs) fun _ _ hc => ?_
            exact (mirrored_elseChain place ho).map fun _ _ hd => by simp [hf, hc, hd]
        | _ => cases hlone
      · cases s <;> cases hlone
termination_by structural o => o

/-- The arms of a match statement are written alike. -/
theorem mirrored_matchCases (place : Place) : ∀ {arms arms' : List MatchArm},
    MatchArm.DropsAll fns arms arms' →
    Mirrored (Code.Same fns) (matchCases env place arms)
      (matchCases (env.withTraits traits) place arms')
  | [] => by
    rintro rfl
    exact .pure rfl
  | ⟨_, .expr _⟩ :: _ => by
    rintro ⟨_, _, _, rfl, hp, h, harms⟩
    refine .bind (mirrored_armPattern place hp) fun _ _ hsel => ?_
    refine .bind (mirrored_expr place .statement h) fun _ _ hf => ?_
    exact (mirrored_matchCases place harms).map fun _ _ hc => by simp [hsel, hf, hc]
  | ⟨_, .block _⟩ :: _ => by
    rintro ⟨_, _, _, rfl, hp, hjump, h, harms⟩
    refine .bind (mirrored_armPattern place hp) fun _ _ hsel => ?_
    refine .bind (mirrored_stmts place h) fun _ _ hcode => ?_
    exact (mirrored_matchCases place harms).map fun _ _ hc => by simp [hsel, hcode, hc]
termination_by structural arms => arms

/-- The cases of a switch are written alike. -/
theorem mirrored_switchCases (place : Place) : ∀ {cases cases' : List SwitchCase},
    SwitchCase.DropsAll fns cases cases' →
    Mirrored (Code.Same fns) (switchCases env place cases)
      (switchCases (env.withTraits traits) place cases')
  | [] => by
    rintro rfl
    exact .pure rfl
  | ⟨_, _⟩ :: _ => by
    rintro ⟨_, _, _, rfl, hp, -, h, hcases⟩
    refine .bind (mirrored_armPattern place hp) fun _ _ hsel => ?_
    refine .bind (mirrored_stmts place h) fun _ _ hcode => ?_
    exact (mirrored_switchCases place hcases).map fun _ _ hc => by simp [hsel, hcode, hc]
termination_by structural cases => cases

/-- Attributes are written alike. -/
theorem mirrored_attributeLines (place : Place) : ∀ {as as' : List Attribute},
    Attribute.DropsAll fns as as' →
    Mirrored (Code.Same fns) (attributeLines env place as)
      (attributeLines (env.withTraits traits) place as')
  | [] => by
    rintro rfl
    exact .pure rfl
  | ⟨_, _⟩ :: _ => by
    rintro ⟨_, _, rfl, h, has⟩
    have hrest := mirrored_attributeLines place has
    rw [attributeLines, attributeLines]
    split
    · exact hrest
    · refine .bind (mirrored_exprs place h) fun fs fs' hfs => ?_
      rw [h.isEmpty]
      extract_lets shown shown'
      have hshown : Fragment.Same fns shown shown' := by
        unfold shown shown'
        split
        · rfl
        · simp [hfs]
      split
      · exact hrest.map fun _ _ hc => by simp [hshown, hc]
      · exact .same (.report _ _) fun _ => hrest.map fun _ _ hc => by simp [hshown, hc]
termination_by structural as => as

/-- A function is written alike behind prologues alike. -/
theorem mirrored_function (place : Place) (options : FunctionOptions)
    {prologue prologue' : Place → Gen (List Code)}
    (hprologue : ∀ place, Mirrored (Code.Same fns) (prologue place) (prologue' place)) :
    ∀ {f f' : Function}, f.Drops fns f' →
    Mirrored (Code.Same fns) (function env place options prologue f)
      (function (env.withTraits traits) place options prologue' f')
  | ⟨name, _, returnType, generics, _, _, body, _, _⟩ => by
    rintro ⟨_, _, body', rfl, hparams, has, hbody, -⟩
    refine target.mirrored_unlessMarked has.marker rfl ?_
    split
    · exact .same (.report _ _) fun _ => .pure rfl
    extract_lets inner
    refine .bind (mirrored_attributeLines inner has) fun _ _ hlines => ?_
    refine .same (mirrored_parameters hparams) fun _ => ?_
    extract_lets +lift shown finish finish'
    have hfinish : ∀ returns : String,
        Mirrored (Code.Same fns) (finish returns) (finish' returns) :=
      fun _ => .same (blind_genericParams generics) fun _ =>
        (mirrored_functionBody inner _ hprologue _ hbody).map fun _ _ hc => by simp [hlines, hc]
    split
    · exact hfinish _
    · exact .same (mirrored_returnSpelling name returnType hbody) hfinish
termination_by structural f => f

/-- A body is written alike behind prologues alike. -/
theorem mirrored_functionBody (place : Place) (requireBody : Bool)
    {prologue prologue' : Place → Gen (List Code)}
    (hprologue : ∀ place, Mirrored (Code.Same fns) (prologue place) (prologue' place))
    (head : String) : ∀ {body body' : Option (List Stmt)}, Stmt.DropsBody fns body body' →
    Mirrored (Code.Same fns) (functionBody env place requireBody prologue head body)
      (functionBody (env.withTraits traits) place requireBody prologue' head body')
  | none => by
    rintro rfl
    rw [functionBody, functionBody]
    split
    · exact .pure rfl
    · exact .pure rfl
  | some _ => by
    rintro ⟨_, rfl, h⟩
    refine .bind (hprologue place) fun _ _ hc => ?_
    exact (mirrored_stmts place h).map fun _ _ hd => by simp [hc, hd]
termination_by structural body => body

end

end Marked

end Rust

end SourceGen
