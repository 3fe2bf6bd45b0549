import SourceGen.Proofs.CleanRun
import SourceGen.Proofs.PlainTypes
import SourceGen.Rust.Body

/-!
# Nested spellings in Rust

Names, literals and operators are plain if the texts they come from are. The spellings of types and
visibilities may have parentheses of their own, and close them.

## Main results

* `Rust.clean_mapType`, `Rust.clean_typeOr`: the spellings of types.
* `Rust.nested_associated`: a type in front of an associated function.
* `Rust.clean_parameters`, `Rust.clean_genericParams`: the heads of declarations.
-/

namespace SourceGen

namespace Rust

open Text (isPlain NestedText)

/-! ### Spellings -/

@[simp] theorem isPlain_ident (name : String) : isPlain (ident name) = isPlain name := by
  unfold ident
  split
  · rw [Text.isPlain_append]
    exact Bool.and_true _
  · split
    · rw [Text.isPlain_append]
      rfl
    · rfl

theorem isPlain_path {parts : List String} (h : parts.all isPlain = true) :
    isPlain (path parts) = true := by
  refine Text.isPlain_join rfl fun s hs => ?_
  obtain ⟨part, hpart, rfl⟩ := List.mem_map.mp hs
  rw [isPlain_ident]
  exact List.all_eq_true.mp h part hpart

theorem isPlain_literal {value : Literal} (h : value.everyText isPlain = true) :
    isPlain (literal value) = true := by
  cases value with
  | number digits => exact h
  | string value =>
    rw [literal, Text.isPlain_append, Text.isPlain_append, Text.isPlain_escapeString h]
    rfl
  | char value =>
    have hvalue : Text.isDelimiter value = false :=
      Text.isDelimiter_eq_false_of_mem h (by simp [Char.toString])
    rw [literal, Text.isPlain_append, Text.isPlain_append, Text.isPlain_escapeChar hvalue]
    rfl
  | bool value => cases value <;> rfl
  | null => rfl

@[simp] theorem isPlain_binaryOp (op : Token) : isPlain (binaryOp op) = true := by
  unfold binaryOp
  split <;> first | rfl | exact Token.isPlain_name op

@[simp] theorem isPlain_unaryOp (op : Token) : isPlain (unaryOp op) = true := by
  unfold unaryOp
  split <;> first | rfl | exact Token.isPlain_name op

theorem nested_unitType : NestedText unitType :=
  fun _ => by simp [unitType]

theorem isPlain_catchAll : isPlain catchAll = true :=
  rfl

theorem nested_primitive (type : Primitive) : NestedText (primitive type) := by
  cases type with
  | void => exact nested_unitType
  | any => exact Text.nested_of_isPlain isPlain_catchAll
  | _ => exact Text.nested_of_isPlain rfl

/-- A path separator between the name and the arguments of a type does not count. -/
theorem nested_associated {type : String} (h : NestedText type) : NestedText (associated type) := by
  unfold associated
  extract_lets chars before rest
  split
  · exact h
  · intro stack
    -- The two parts are read as the whole was; between them stands `::`.
    have hparts : before ++ rest = type.toList := List.takeWhile_append_dropWhile
    have hscan := h stack
    rw [← hparts, Text.scan_append] at hscan
    simpa using hscan

theorem nested_visibility (modifiers : List Modifier) (defaultPublic : Bool) :
    NestedText (visibility modifiers defaultPublic) := by
  unfold visibility
  split
  · exact fun _ => by simp
  · exact fun _ => by simp
  · exact fun _ => by simp
  · exact fun _ => by simp
  · split
    · exact fun _ => by simp
    · exact fun _ => by simp

/-! ### Types -/

theorem nested_callableSpelling {args : List String} (h : ∀ s ∈ args, NestedText s) :
    NestedText (callableSpelling args) := by
  unfold callableSpelling
  extract_lets params result
  have hparams : NestedText params :=
    Text.nested_join rfl fun s hs => h s (List.dropLast_subset args hs)
  have hresult : NestedText result := by
    cases hlast : args.getLast? with
    | none => simpa [result, hlast] using nested_unitType
    | some s => simpa [result, hlast] using h s (List.mem_of_getLast? hlast)
  split
  · exact fun _ => by simp [hparams]
  · exact fun _ => by simp [hparams, hresult]

theorem nested_containerSpelling {type : Container} {args : List String}
    (h : ∀ s ∈ args, NestedText s) : NestedText (containerSpelling type args) := by
  have hjoin : NestedText (Text.join ", " args) := Text.nested_join rfl h
  have hinner : NestedText (args.head?.getD unitType) := by
    cases hhead : args.head? with
    | none => exact nested_unitType
    | some s => exact h s (List.mem_of_head? hhead)
  unfold containerSpelling
  split
  · exact fun _ => by simp [hjoin]
  · exact fun _ => by simp [hjoin]
  · exact fun _ => by simp [hjoin]
  · exact fun _ => by simp [hjoin]
  · split
    · rename_i only
      have honly := h only List.mem_cons_self
      exact fun _ => by simp [honly]
    · exact fun _ => by simp [hjoin]
  · exact nested_callableSpelling h
  · exact fun _ => by simp [hinner]
  · exact fun _ => by simp [hjoin]

theorem mem_of_mem_coloned {c : Char} {cs : List Char} (h : c ∈ coloned cs) : c = ':' ∨ c ∈ cs := by
  fun_induction coloned cs with
  | case1 cs ih =>
    simp only [List.mem_cons] at h
    rcases h with rfl | rfl | h
    · exact .inl rfl
    · exact .inl rfl
    · exact (ih h).imp_right fun h => by simp [h]
  | case2 d cs _ ih =>
    rcases List.mem_cons.mp h with rfl | h
    · exact .inr List.mem_cons_self
    · exact (ih h).imp_right (List.mem_cons_of_mem d)
  | case3 => cases h

theorem isPlain_coloned {name : String} (h : isPlain name = true) :
    isPlain (String.ofList (coloned name.toList)) = true := by
  rw [Text.isPlain_ofList, List.all_eq_true]
  intro c hc
  rcases mem_of_mem_coloned hc with rfl | hc
  · rfl
  · simp [Text.isDelimiter_eq_false_of_mem h hc]

variable {known : KnownTypes} {scope : Scope}

mutual

theorem clean_mapNormal : ∀ t : TypeRef, t.IsPlain → (mapNormal known scope t).Clean NestedText
  | ⟨name, args⟩, h => by
    rw [TypeRef.IsPlain, TypeRef.everyText, Bool.and_eq_true] at h
    have hargs : (mapNormalAll known scope args).Clean fun ss => ∀ s ∈ ss, NestedText s :=
      clean_mapNormalAll args h.2
    -- A shape that keeps a name keeps that of the reference.
    have hname : ∀ own ∈ (TypeRef.classify scope.generics known ⟨name, args⟩).name?,
        isPlain own = true := by
      intro own hown
      rw [TypeRef.name_of_classify hown]
      exact h.1
    unfold mapNormal
    split
    · rename_i hshape
      exact .pure (Text.nested_of_isPlain (hname _ (by rw [hshape]; rfl)))
    · exact .pure (nested_primitive _)
    · rename_i type _ _
      refine .bind hargs fun mapped hmapped => ?_
      have hspelling : NestedText (containerSpelling type (type.fill mapped catchAll)) := by
        refine nested_containerSpelling fun s hs => ?_
        rcases Container.mem_fill hs with hs | rfl
        · exact hmapped s hs
        · exact Text.nested_of_isPlain isPlain_catchAll
      cases type with
      | map | set => exact .importing rfl (.pure hspelling)
      | list | array | tuple | optional | function | promise => exact .pure hspelling
    · rename_i hshape
      refine .bind hargs fun mapped hmapped => .pure ?_
      have hown := hname _ (by rw [hshape]; rfl)
      have hangled := Text.nested_angled hmapped
      exact fun _ => by simp [hown, hangled]
    · rename_i hshape
      refine .bind hargs fun mapped hmapped => .pure ?_
      have hown := isPlain_coloned (hname _ (by rw [hshape]; rfl))
      have hangled := Text.nested_angled hmapped
      exact fun _ => by simp only [String.toList_append, Text.scan_append, Text.scan_toList hown,
        Option.bind_some, hangled]
    · exact .reporting (.pure (Text.nested_of_isPlain isPlain_catchAll))

theorem clean_mapNormalAll : ∀ ts : List TypeRef, TypeRef.allText isPlain ts = true →
    (mapNormalAll known scope ts).Clean fun ss => ∀ s ∈ ss, NestedText s
  | [], _ => by
    unfold mapNormalAll
    exact .pure nofun
  | t :: ts, h => by
    rw [TypeRef.allText, Bool.and_eq_true] at h
    unfold mapNormalAll
    exact .bind (clean_mapNormal t h.1) fun s hs => .bind (clean_mapNormalAll ts h.2) fun ss hss =>
      .pure (List.forall_mem_cons.mpr ⟨hs, hss⟩)

end

/-- A plain type is mapped to a nested text. -/
theorem clean_mapType {type : TypeRef} (h : type.IsPlain) :
    (mapType known scope type).Clean NestedText :=
  clean_mapNormal type.normalize (TypeRef.isPlain_normalize type h)

theorem clean_mapTypes {types : List TypeRef} (h : TypeRef.allText isPlain types = true) :
    (mapTypes known scope types).Clean fun ss => ∀ s ∈ ss, NestedText s :=
  .mapM fun type htype => clean_mapType (TypeRef.allText_iff.mp h type htype)

/-! ### Heads of declarations -/

variable {env : Env}

theorem clean_inferredType (name : String) (value : Option Expr) :
    (inferredType name value).Clean NestedText := by
  unfold inferredType
  extract_lets found
  have hfound : ∀ type ∈ found, isPlain type = true := by
    intro type htype
    dsimp only [found] at htype
    split at htype
    · rename_i l
      cases l with
      | number digits =>
        cases htype
        split <;> rfl
      | null => cases htype
      | _ => cases htype; rfl
    · cases htype
  clear_value found
  cases found with
  | some type => exact .pure (Text.nested_of_isPlain (hfound type rfl))
  | none => exact .reporting (.pure (Text.nested_of_isPlain isPlain_catchAll))

/-- A plain or missing type is spelled as a nested text. -/
theorem clean_typeOr {name : String} {type : Option TypeRef} {value : Option Expr}
    (h : type.all (TypeRef.everyText isPlain) = true) :
    (typeOr env scope name type value).Clean NestedText := by
  cases type with
  | none => exact clean_inferredType name value
  | some type => exact clean_mapType h

/-- Plain parameters are nested. -/
theorem clean_parameters {params : List Parameter}
    (h : Parameter.allText target isPlain params = true) :
    (parameters env scope params).Clean fun ss => ∀ s ∈ ss, NestedText s := by
  induction params with
  | nil => exact .pure nofun
  | cons p params ih =>
    obtain ⟨name, type, default⟩ := p
    rw [Parameter.allText, Bool.and_eq_true, Bool.and_eq_true, Bool.and_eq_true] at h
    obtain ⟨⟨⟨hname, htype⟩, -⟩, hparams⟩ := h
    rw [parameters]
    refine .bind (clean_typeOr htype) fun spelling hspelling => ?_
    have hshown : NestedText (ident name ++ ": " ++ spelling) :=
      fun _ => by simp [hname, hspelling]
    split
    · exact .reporting (.bind (ih hparams) fun ss hss =>
        .pure (List.forall_mem_cons.mpr ⟨hshown, hss⟩))
    · exact .bind (ih hparams) fun ss hss => .pure (List.forall_mem_cons.mpr ⟨hshown, hss⟩)

/-- The arguments of plain generics are nested. -/
theorem nested_genericArgs {generics : List GenericParam}
    (h : generics.all (GenericParam.everyText isPlain) = true) :
    NestedText (genericArgs generics) := by
  refine Text.nested_angled fun s hs => ?_
  obtain ⟨g, hg, rfl⟩ := List.mem_map.mp hs
  have hg := List.all_eq_true.mp h g hg
  rw [GenericParam.everyText, Bool.and_eq_true] at hg
  exact Text.nested_of_isPlain hg.1

/-- Plain generics with their bounds are nested. -/
theorem clean_genericParams {generics : List GenericParam}
    (h : generics.all (GenericParam.everyText isPlain) = true) :
    (genericParams env scope generics).Clean NestedText := by
  unfold genericParams
  refine .bind (.mapM fun g hg => ?_) fun shown hshown => .pure (Text.nested_angled hshown)
  have hg := List.all_eq_true.mp h g hg
  rw [GenericParam.everyText, Bool.and_eq_true] at hg
  split
  · exact .pure (Text.nested_of_isPlain hg.1)
  · refine .bind (clean_mapTypes hg.2) fun bounds hbounds => .pure ?_
    have hjoin : NestedText (Text.join " + " bounds) := Text.nested_join rfl hbounds
    exact fun _ => by simp [hg.1, hjoin]

/-- A plain or missing return type is spelled as a nested text. -/
theorem clean_returnSpelling {name : String} {declared : Option TypeRef}
    {body : Option (List Stmt)} (h : declared.all (TypeRef.everyText isPlain) = true) :
    (returnSpelling env scope name declared body).Clean NestedText := by
  cases declared with
  | none =>
    unfold returnSpelling
    dsimp only
    split
    · exact .reporting (.pure (Text.nested_of_isPlain isPlain_catchAll))
    · exact .pure nested_unitType
  | some type => exact clean_mapType h

theorem nested_returnClause {type : String} (h : NestedText type) :
    NestedText (returnClause type) := by
  unfold returnClause
  split
  · exact fun _ => by simp
  · exact fun _ => by simp [h]

theorem nested_receiver (receiver : Receiver) : ∀ s ∈ receiver.params, NestedText s := by
  cases receiver with
  | none => exact nofun
  | shared | exclusive =>
    intro s hs
    obtain rfl := List.mem_singleton.mp hs
    exact Text.nested_of_isPlain rfl

/-- The head of a closure with plain parameters is nested. -/
theorem clean_lambdaHead {params : List Parameter}
    (h : params.all (fun p => isPlain p.name && p.type.all (TypeRef.everyText isPlain)) = true) :
    (lambdaHead env scope params).Clean NestedText := by
  have hparam : ∀ p ∈ params,
      isPlain p.name = true ∧ p.type.all (TypeRef.everyText isPlain) = true := by
    simpa using h
  unfold lambdaHead
  refine .bind (.mapM fun p hp => ?_) fun shown (hshown : ∀ s ∈ shown, NestedText s) => .pure ?_
  · obtain ⟨hname, htype⟩ := hparam p hp
    split
    · rename_i type hsome
      rw [hsome] at htype
      exact .bind (clean_mapType htype) fun spelling hspelling =>
        .pure fun _ => by simp [hname, hspelling]
    · exact .pure fun _ => by simp [hname]
  · have hjoin : NestedText (Text.join ", " shown) := Text.nested_join rfl hshown
    exact fun _ => by simp [hjoin]

end Rust

end SourceGen
