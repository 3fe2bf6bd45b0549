import SourceGen.CSharp.Body
import SourceGen.Proofs.CleanRun
import SourceGen.Proofs.PlainTypes

/-!
# Nested spellings in C#

Names, literals and operators are plain if the texts they come from are. The spelling of a type may
have parentheses of its own, around the parts of a tuple, and closes them.

## Main definitions

* `TypeResolver.IsPlain`: no spelling that the resolver knows has a delimiter.

## Main results

* `CSharp.clean_mapType`: the spellings of types.
* `CSharp.clean_lambdaHead`, `CSharp.clean_whereClauses`: the heads of lambdas and declarations.
-/

namespace SourceGen

/-- No spelling that the resolver knows has a delimiter. -/
def TypeResolver.IsPlain (r : TypeResolver) : Prop :=
  ∀ name, ∀ spelling ∈ r.resolve name, Text.isPlain spelling = true

namespace CSharp

open Text (isPlain NestedText)

/-! ### Spellings -/

/-- Escaping an identifier adds no delimiter. -/
@[simp] theorem isPlain_ident (name : String) : isPlain (ident name) = isPlain name := by
  rw [ident]
  split
  · rw [Text.isPlain_append]
    rfl
  · rfl

theorem isPlain_path {parts : List String} (h : parts.all isPlain = true) :
    isPlain (path parts) = true := by
  refine Text.isPlain_join rfl fun s hs => ?_
  obtain ⟨part, hpart, rfl⟩ := List.mem_map.mp hs
  rw [isPlain_ident]
  exact List.all_eq_true.mp h part hpart

/-- A literal of plain text is plain. -/
theorem isPlain_literal {value : Literal} (h : value.everyText isPlain = true) :
    isPlain (literal value) = true := by
  cases value with
  | number digits => exact h
  | string value =>
    rw [literal, Text.isPlain_append, Text.isPlain_append, Text.isPlain_escapeString h]
    rfl
  | char value =>
    have hvalue : Text.isDelimiter value = false :=
      Text.isDelimiter_eq_false_of_mem h (by simp [Char.toString])
    rw [literal, Text.isPlain_append, Text.isPlain_append, Text.isPlain_escapeChar hvalue]
    rfl
  | bool value => cases value <;> rfl
  | null => rfl

@[simp] theorem isPlain_binaryOp (op : Token) : isPlain (binaryOp op) = true := by
  unfold binaryOp
  split <;> first | rfl | exact Token.isPlain_name op

@[simp] theorem isPlain_unaryOp (op : Token) : isPlain (unaryOp op) = true := by
  unfold unaryOp
  split <;> first | rfl | exact Token.isPlain_name op

theorem isPlain_primitive (type : Primitive) : isPlain (primitive type) = true := by
  cases type <;> rfl

theorem isPlain_builtin (fn : Builtin) : isPlain fn.name = true := by
  cases fn <;> rfl

theorem isPlain_word (m : Modifier) : isPlain m.word = true := by
  cases m <;> rfl

/-! ### Types -/

/-- A delegate type over nested types is nested. -/
theorem nested_delegateSpelling {args : List String} (h : ∀ s ∈ args, NestedText s) :
    NestedText (delegateSpelling args) := by
  unfold delegateSpelling
  extract_lets params result
  have hparams : NestedText (Text.join ", " params) :=
    Text.nested_join rfl fun s hs => h s (List.dropLast_subset args hs)
  have hresult : NestedText result := by
    cases hlast : args.getLast? with
    | none => exact fun _ => by simp [result, hlast]
    | some s => simpa [result, hlast] using h s (List.mem_of_getLast? hlast)
  split
  · split
    · exact fun _ => by simp
    · exact fun _ => by simp [hparams]
  · split
    · exact fun _ => by simp [hresult]
    · exact fun _ => by simp [hparams, hresult]

/-- A container over nested types is nested. -/
theorem nested_containerSpelling {type : Container} {args : List String}
    (h : ∀ s ∈ args, NestedText s) : NestedText (containerSpelling type args) := by
  have hjoin : NestedText (Text.join ", " args) := Text.nested_join rfl h
  cases type with
  | list | map | set | array | tuple | optional =>
    exact fun _ => by simp [containerSpelling, hjoin]
  | function => exact nested_delegateSpelling h
  | promise =>
    have hinner : NestedText (args.head?.getD "void") := by
      cases hhead : args.head? with
      | none => exact Text.nested_of_isPlain rfl
      | some s => exact h s (List.mem_of_head? hhead)
    simp only [containerSpelling]
    split
    · exact fun _ => by simp
    · exact fun _ => by simp [hinner]

theorem mem_of_mem_dotted {c : Char} {cs : List Char} (h : c ∈ dotted cs) : c = '.' ∨ c ∈ cs := by
  fun_induction dotted cs with
  | case1 cs ih =>
    rcases List.mem_cons.mp h with rfl | h
    · exact .inl rfl
    · exact (ih h).imp_right fun h => by simp [h]
  | case2 d cs _ ih =>
    rcases List.mem_cons.mp h with rfl | h
    · exact .inr List.mem_cons_self
    · exact (ih h).imp_right (List.mem_cons_of_mem d)
  | case3 => cases h

theorem isPlain_dotted {name : String} (h : isPlain name = true) :
    isPlain (String.ofList (dotted name.toList)) = true := by
  rw [Text.isPlain_ofList, List.all_eq_true]
  intro c hc
  rcases mem_of_mem_dotted hc with rfl | hc
  · rfl
  · simp [Text.isDelimiter_eq_false_of_mem h hc]

variable {env : Env} {scope : Scope}

mutual

/-- A plain type is mapped to a nested text, when the resolver gives plain names. -/
theorem clean_mapNormal (hresolver : env.resolver.IsPlain) :
    ∀ t : TypeRef, t.IsPlain → (mapNormal env scope t).Clean NestedText
  | ⟨name, args⟩, h => by
    rw [TypeRef.IsPlain, TypeRef.everyText, Bool.and_eq_true] at h
    have hargs : (mapNormalAll env scope args).Clean fun ss => ∀ s ∈ ss, NestedText s :=
      clean_mapNormalAll hresolver args h.2
    -- A shape that keeps a name keeps that of the reference.
    have hname : ∀ own ∈ (TypeRef.classify scope.generics env.known ⟨name, args⟩).name?,
        isPlain own = true := by
      intro own hown
      rw [TypeRef.name_of_classify hown]
      exact h.1
    unfold mapNormal
    split
    · rename_i hshape
      exact .pure (Text.nested_of_isPlain (hname _ (by rw [hshape]; rfl)))
    · exact .pure (Text.nested_of_isPlain (isPlain_primitive _))
    · rename_i type _ _
      refine .bind hargs fun mapped hmapped => ?_
      have hspelling : NestedText (containerSpelling type (type.fill mapped catchAll)) := by
        refine nested_containerSpelling fun s hs => ?_
        rcases Container.mem_fill hs with hs | rfl
        · exact hmapped s hs
        · exact Text.nested_of_isPlain rfl
      cases type with
      | array | tuple | optional => exact .pure hspelling
      | list | map | set | function | promise => exact .importing rfl (.pure hspelling)
    · rename_i hshape
      refine .bind hargs fun mapped hmapped => .pure ?_
      have hown := hname _ (by rw [hshape]; rfl)
      have hangled := Text.nested_angled hmapped
      exact fun _ => by simp [hown, hangled]
    · rename_i hshape
      refine .bind hargs fun mapped hmapped => .pure ?_
      have hown := isPlain_dotted (hname _ (by rw [hshape]; rfl))
      have hangled := Text.nested_angled hmapped
      exact fun _ => by simp only [String.toList_append, Text.scan_append, Text.scan_toList hown,
        Option.bind_some, hangled]
    · -- Only here the resolver is asked.
      split
      · rename_i spelling hspelling
        refine .bind hargs fun mapped hmapped => .pure ?_
        have hown := hresolver _ spelling hspelling
        have hangled := Text.nested_angled hmapped
        exact fun _ => by simp [hown, hangled]
      · exact .reporting (.pure (Text.nested_of_isPlain rfl))

theorem clean_mapNormalAll (hresolver : env.resolver.IsPlain) :
    ∀ ts : List TypeRef, TypeRef.allText isPlain ts = true →
      (mapNormalAll env scope ts).Clean fun ss => ∀ s ∈ ss, NestedText s
  | [], _ => by
    unfold mapNormalAll
    exact .pure nofun
  | t :: ts, h => by
    rw [TypeRef.allText, Bool.and_eq_true] at h
    unfold mapNormalAll
    exact .bind (clean_mapNormal hresolver t h.1) fun s hs =>
      .bind (clean_mapNormalAll hresolver ts h.2) fun ss hss =>
        .pure (List.forall_mem_cons.mpr ⟨hs, hss⟩)

end

section

variable (hresolver : env.resolver.IsPlain)

include hresolver

/-- A plain type is mapped to a nested text. -/
theorem clean_mapType {type : TypeRef} (h : type.IsPlain) :
    (mapType env scope type).Clean NestedText :=
  clean_mapNormal hresolver type.normalize (TypeRef.isPlain_normalize type h)

theorem clean_mapTypeOr {fallback : String} (hfallback : isPlain fallback = true)
    {type : Option TypeRef} (h : type.all (TypeRef.everyText isPlain) = true) :
    (mapTypeOr env scope fallback type).Clean NestedText := by
  cases type with
  | none => exact .pure (Text.nested_of_isPlain hfallback)
  | some type => exact clean_mapType hresolver h

theorem clean_mapTypes {types : List TypeRef} (h : TypeRef.allText isPlain types = true) :
    (mapTypes env scope types).Clean fun ss => ∀ s ∈ ss, NestedText s :=
  .mapM fun type htype => clean_mapType hresolver (TypeRef.allText_iff.mp h type htype)

theorem clean_lambdaHead {params : List Parameter}
    (h : params.all (fun p => isPlain p.name && p.type.all (TypeRef.everyText isPlain)) = true) :
    (lambdaHead env scope params).Clean NestedText := by
  have hparam : ∀ p ∈ params,
      isPlain p.name = true ∧ p.type.all (TypeRef.everyText isPlain) = true := by
    simpa using h
  have hnames : NestedText (Text.join ", " (params.map fun p => ident p.name)) := by
    refine Text.nested_join rfl fun s hs => ?_
    obtain ⟨p, hp, rfl⟩ := List.mem_map.mp hs
    exact Text.nested_of_isPlain (by rw [isPlain_ident]; exact (hparam p hp).1)
  unfold lambdaHead
  split
  · refine .bind (.mapM fun p hp => ?_) fun typed (htyped : ∀ s ∈ typed, NestedText s) => .pure ?_
    · refine .bind (clean_mapTypeOr hresolver rfl (hparam p hp).2) fun spelling hspelling =>
        .pure ?_
      have hname := (hparam p hp).1
      exact fun _ => by simp [hspelling, hname]
    · have hjoin : NestedText (Text.join ", " typed) := Text.nested_join rfl htyped
      exact fun _ => by simp [hjoin]
  · split
    · exact .pure (by simpa [Text.join] using hnames)
    · exact .pure fun _ => by simp [hnames]

/-- The constraints of plain generics are nested. -/
theorem clean_whereClauses : ∀ generics : List GenericParam,
    generics.all (GenericParam.everyText isPlain) = true →
      (whereClauses env scope generics).Clean NestedText
  | [], _ => .pure fun _ => by simp
  | g :: gs, h => by
    rw [List.all_cons, Bool.and_eq_true, GenericParam.everyText, Bool.and_eq_true] at h
    obtain ⟨⟨hname, hbounds⟩, hgs⟩ := h
    unfold whereClauses
    split
    · exact clean_whereClauses gs hgs
    · refine .bind (clean_mapTypes hresolver hbounds) fun bounds hbounds => ?_
      refine .bind (clean_whereClauses gs hgs) fun rest hrest => .pure ?_
      have hjoin : NestedText (Text.join ", " bounds) := Text.nested_join rfl hbounds
      exact fun _ => by simp [hname, hjoin, hrest]

/-- A plain return type is nested. -/
theorem clean_returnSpelling {declared : Option TypeRef} {body : Option (List Stmt)}
    (h : declared.all (TypeRef.everyText isPlain) = true) :
    (returnSpelling env scope declared body).Clean NestedText := by
  cases declared with
  | none =>
    refine .pure ?_
    split
    · exact Text.nested_of_isPlain rfl
    · exact Text.nested_of_isPlain rfl
  | some type => exact clean_mapType hresolver h

end

/-- A list of plain generics is nested. -/
theorem nested_genericList {generics : List GenericParam}
    (h : generics.all (GenericParam.everyText isPlain) = true) :
    NestedText (genericList generics) := by
  refine Text.nested_angled fun s hs => ?_
  obtain ⟨g, hg, rfl⟩ := List.mem_map.mp hs
  have hg := List.all_eq_true.mp h g hg
  rw [GenericParam.everyText, Bool.and_eq_true] at hg
  exact Text.nested_of_isPlain hg.1

theorem nested_modifierText (explicit : List Modifier) (default : Modifier) (makeStatic : Bool)
    (scope : Scope) : NestedText (modifierText explicit default makeStatic scope) := by
  refine Text.nested_stringJoin fun s hs => ?_
  obtain ⟨word, hword, rfl⟩ := List.mem_map.mp hs
  obtain ⟨m, -, rfl⟩ := List.mem_map.mp hword
  have hm := isPlain_word m
  exact fun _ => by simp [hm]

end CSharp

end SourceGen
