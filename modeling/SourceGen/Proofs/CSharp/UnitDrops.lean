import SourceGen.Proofs.CSharp.BodyDrops
import SourceGen.Proofs.CSharp.UnitAlike
import SourceGen.Proofs.UnitDrops

/-!
# C# units without some marked declarations

A marked member of a type, a module or the implicit class adds nothing but a report and a separator.
So a unit without some of them is written in the same way, up to separators, as long as it still
needs an implicit class and has the same entry point.

## Main results

* `CSharp.mirrored_members`: members without some declarations.
* `CSharp.mirrored_implicitFunctions`: functions of the implicit class without some of them.
* `CSharp.mirrored_generate`: units without some declarations.
-/

namespace SourceGen

namespace CSharp

open Fragment (text)
open Gen (Blind Idle Mirrored)

variable {env : Env} {scope : Scope} {host : Host} {fns : Bool}

/-! ### Fields, properties and enums -/

theorem mirrored_variantLines : ∀ {vs vs' : List EnumVariant}, EnumVariant.DropsAll fns vs vs' →
    Mirrored (Code.Same fns) (variantLines env scope vs) (variantLines env scope vs')
  | [], _ => by
    rintro rfl
    exact .pure rfl
  | ⟨_, _⟩ :: _, _ => by
    rintro ⟨_, _, rfl, ho, hs⟩
    refine .bind (mirrored_exprOption scope ho) fun _ _ hf => ?_
    exact (mirrored_variantLines hs).map fun _ _ hc => by simp [hf, hc]

theorem mirrored_enumCode {d d' : EnumDecl} (h : d.Drops fns d') :
    Mirrored (Code.Same fns) (enumCode env scope d) (enumCode env scope d') := by
  obtain ⟨name, modifiers, as, vs⟩ := d
  obtain ⟨as', vs', rfl, has, hvs⟩ := h
  refine target.mirrored_unlessMarked has.marker rfl ?_
  refine .bind (mirrored_attributeLines scope has) fun _ _ hlines => ?_
  exact (mirrored_variantLines hvs).map fun _ _ hc => by simp [hlines, hc]

theorem mirrored_fieldCode {f f' : Field} (h : f.Drops fns f') :
    Mirrored (Code.Same fns) (fieldCode env scope f) (fieldCode env scope f') := by
  obtain ⟨name, type, modifiers, as, o⟩ := f
  obtain ⟨as', o', rfl, has, ho⟩ := h
  refine target.mirrored_unlessMarked has.marker rfl ?_
  refine .bind (mirrored_attributeLines scope has) fun _ _ hlines => ?_
  refine .same (blind_mapTypeOr untyped type) fun _ => ?_
  exact (mirrored_exprOption scope ho).map fun _ _ hf => by simp [hlines, hf]

theorem mirrored_accessorCode : ∀ {as as' : List Accessor}, Accessor.DropsAll fns as as' →
    Mirrored (Code.Same fns) (accessorCode env scope as) (accessorCode env scope as')
  | [], _ => by
    rintro rfl
    exact .pure rfl
  | ⟨kind, modifiers, none⟩ :: _, _ => by
    rintro ⟨_, _, rfl, rfl, has⟩
    exact (mirrored_accessorCode has).map fun _ _ hc => by simp [accessorHead, hc]
  | ⟨kind, modifiers, some body⟩ :: _, _ => by
    rintro ⟨_, _, rfl, ⟨_, rfl, hbody⟩, has⟩
    refine .bind (mirrored_stmts scope none hbody) fun _ _ hcode => ?_
    exact (mirrored_accessorCode has).map fun _ _ hc => by simp [accessorHead, hcode, hc]

theorem mirrored_propertyCode {p p' : Property} (h : p.Drops fns p') :
    Mirrored (Code.Same fns) (propertyCode env scope p) (propertyCode env scope p') := by
  have hauto := h.isAuto
  obtain ⟨name, type, modifiers, as, accessors, o⟩ := p
  obtain ⟨as', accessors', o', rfl, has, haccessors, ho⟩ := h
  have hshown : autoAccessors accessors = autoAccessors accessors' := by
    have hempty : ∀ as : List Accessor, as.isEmpty = (as.map accessorHead).isEmpty := fun as => by
      rw [List.isEmpty_map]
    have hheads : accessors.map accessorHead = accessors'.map accessorHead :=
      Accessor.DropsAll.map_eq (fun _ _ _ => rfl) haccessors
    have hlines : ∀ as : List Accessor, as.map (fun a => accessorHead a ++ ";") =
        (as.map accessorHead).map (· ++ ";") := fun as => by
      rw [List.map_map]
      rfl
    rw [autoAccessors, autoAccessors, hempty, hlines, hheads, ← hempty, ← hlines]
  refine target.mirrored_unlessMarked has.marker rfl ?_
  refine .bind (mirrored_attributeLines scope has) fun _ _ hlines => ?_
  refine .same (blind_mapTypeOr untyped type) fun _ => ?_
  rw [hauto, hshown]
  split
  · refine (mirrored_exprOption scope ho).map fun f f' hf => ?_
    have hvalue : ∀ f : Option Fragment,
        Piece.thinAll fns (f.elim [] fun shown => text " = " ++ (shown ++ text ";")) =
          (f.map (Piece.thinAll fns)).elim [] fun shown => text " = " ++ (shown ++ text ";") :=
      fun f => by cases f <;> simp
    simp [hlines, hvalue, hf]
  · exact (mirrored_accessorCode haccessors).map fun _ _ hc => by simp [hlines, hc]

theorem blind_typeHead (outer inner : Scope) (kind : TypeKind) (name : String)
    (modifiers : List Modifier) (generics : List GenericParam) (base : Option TypeRef)
    (interfaces : List TypeRef) :
    Blind (typeHead env outer inner kind name modifiers generics base interfaces) :=
  .same (blind_mapTypes _) fun _ => (blind_whereClauses generics).mapEq _

/-! ### Members -/

/-- A dropped member leaves a separator at most. -/
theorem idle_member {s : Stmt} (h : s.droppable fns = true) :
    Idle (fun code => Code.thinAll fns code = []) (member env scope host s) := by
  cases s with
  | functionDecl kind f =>
    obtain ⟨rfl, hmarker⟩ := Bool.and_eq_true_iff.mp h
    rw [member]
    split
    · exact .fail _
    · exact (idle_function hmarker).map fun code hcode => by simp [hcode]
  | fieldDecl f =>
    rw [member]
    split
    · exact .fail _
    · exact target.idle_unlessMarked h (by simp)
  | propertyDecl p =>
    rw [member]
    split
    · exact .fail _
    · exact target.idle_unlessMarked h (by simp)
  | _ => cases h

/-- Among the members of a namespace there is nothing to drop. -/
theorem idle_member_space {s : Stmt} (h : s.droppable fns = true) :
    Idle (fun _ => False) (member env scope .space s) := by
  cases s with
  | functionDecl | fieldDecl | propertyDecl =>
    rw [member, if_pos rfl]
    exact .fail _
  | _ => cases h

theorem mirrored_refuseMember (s t : Stmt) :
    Mirrored (Code.Same fns) (refuseMember scope s) (refuseMember scope t) :=
  .same (.report _ _) fun _ => .pure rfl

mutual

theorem mirrored_member (scope : Scope) (host : Host) : ∀ {s t : Stmt}, s.Drops fns t →
    Mirrored (Code.Same fns) (member env scope host s) (member env scope host t)
  | .namespaceDecl _ _ => by
    rintro ⟨_, rfl, hs⟩
    rw [member, member]
    split
    · exact (mirrored_separated hs).map fun _ _ hc => by simp [hc]
    · exact .fail _
  | .typeDecl _ ⟨_, _, _, _, _, _, _⟩ => by
    rintro ⟨_, rfl, _, _, rfl, has, hs⟩
    rw [member, member]
    split
    · exact .fail _
    · -- A marker on the declaration itself is the same on both sides.
      refine target.mirrored_unlessMarked has.marker rfl ?_
      refine .bind (mirrored_attributeLines scope has) fun _ _ hlines => ?_
      refine .same (blind_typeHead _ _ _ _ _ _ _ _) fun _ => ?_
      exact (mirrored_members _ .type hs).map fun _ _ hc => by simp [hlines, hc]
  | .enumDecl ⟨_, _, _, _⟩ => by
    rintro ⟨d', rfl, h⟩
    obtain ⟨_, _, rfl, -⟩ := id h
    rw [member, member]
    split
    · exact .fail _
    · exact mirrored_enumCode h
  | .moduleDecl ⟨_, _, _, _⟩ => by
    rintro ⟨_, rfl, _, _, rfl, has, hs⟩
    rw [member, member]
    split
    · exact .fail _
    · refine target.mirrored_unlessMarked has.marker rfl ?_
      refine .bind (mirrored_attributeLines scope has) fun _ _ hlines => ?_
      exact (mirrored_members _ .module hs).map fun _ _ hc => by simp [hlines, hc]
  | .functionDecl _ _ => by
    rintro ⟨_, rfl, h⟩
    rw [member, member]
    split
    · exact .fail _
    · exact (mirrored_function scope {} (fun _ => .pure rfl) h).map fun _ _ hc => by simp [hc]
  | .fieldDecl _ => by
    rintro ⟨_, rfl, h⟩
    rw [member, member]
    split
    · exact .fail _
    · exact mirrored_fieldCode h
  | .propertyDecl _ => by
    rintro ⟨_, rfl, h⟩
    rw [member, member]
    split
    · exact .fail _
    · exact mirrored_propertyCode h
  | .importDecl _ => by
    rintro rfl
    rw [member]
    split
    · exact .pure rfl
    · exact mirrored_refuseMember _ _
  | .includeDecl _ _ => by
    rintro ⟨_, rfl, hs⟩
    exact mirrored_members scope host hs
  | .raw block => by
    rintro rfl
    exact (target.blind_rawCode block).mono fun _ _ h => by rw [h]
  | .aliasDecl _ | .breakLoop | .continueLoop => by
    rintro rfl
    exact mirrored_refuseMember _ _
  | .binding _ | .ret _ | .expr _ => by
    rintro ⟨_, rfl, _⟩
    exact mirrored_refuseMember _ _
  | .whileLoop _ _ | .forEach _ _ _ _ | .matchOn _ _ | .switchOn _ _ => by
    rintro ⟨_, _, rfl, _⟩
    exact mirrored_refuseMember _ _
  | .ifThen _ _ _ => by
    rintro ⟨_, _, _, rfl, _⟩
    exact mirrored_refuseMember _ _
  | .forLoop _ _ _ _ => by
    rintro ⟨_, _, _, _, rfl, _⟩
    exact mirrored_refuseMember _ _
termination_by structural s => s

/-- Members without some declarations. -/
theorem mirrored_members (scope : Scope) (host : Host) : ∀ {ss ts : List Stmt},
    Stmt.DropsAll fns ss ts →
    Mirrored (Code.Same fns) (members env scope host ss) (members env scope host ts)
  | [] => by
    rintro rfl
    exact .pure rfl
  | _ :: _ => by
    rintro (⟨hs, h⟩ | ⟨_, _, rfl, hs, h⟩)
    · refine .idle (idle_member hs) fun _ hc => ?_
      exact (mirrored_members scope host h).mapLeft fun _ _ hd => by simp [hc, hd]
    · refine .bind (mirrored_member scope host hs) fun _ _ hc => ?_
      exact (mirrored_members scope host h).map fun _ _ hd => by simp [hc, hd]
termination_by structural ss => ss

theorem mirrored_separated : ∀ {ss ts : List Stmt}, Stmt.DropsAll fns ss ts →
    Mirrored (Code.Same fns) (separated env ss) (separated env ts)
  | [] => by
    rintro rfl
    exact .pure rfl
  | _ :: _ => by
    rintro (⟨hs, -⟩ | ⟨_, _, rfl, hs, h⟩)
    · exact .idle (idle_member_space hs) fun _ hno => hno.elim
    · refine .bind (mirrored_member {} .space hs) fun _ _ hc => ?_
      exact (mirrored_separated h).map fun _ _ hd => by simp [hc, hd]
termination_by structural ss => ss

end

/-! ### The implicit class -/

/-- Functions of the implicit class without some of them; the entry function is kept, and it runs
the same loose statements. -/
theorem mirrored_implicitFunctions {loose loose' : List Stmt}
    (hloose : Stmt.DropsAll fns loose loose') (hempty : loose.isEmpty = loose'.isEmpty) :
    ∀ {fs gs : List Function} {seen : Bool},
    Function.UnitDrops fns env.config.entryName seen fs gs →
    Mirrored (Code.SameWith fns)
      (implicitFunctions env loose seen fs) (implicitFunctions env loose' seen gs) := by
  intro fs
  induction fs with
  | nil =>
    rintro _ _ rfl
    exact .pure ⟨rfl, rfl⟩
  | cons f fs ih =>
    rintro _ seen (⟨⟨hfns, hmarker⟩, hother, h⟩ | ⟨g, gs, rfl, hf, h⟩)
    · -- A marked function of the first list is skipped, and it was not the entry.
      have hrest := ih h
      subst hfns
      rw [implicitFunctions, hother]
      refine .idle (idle_function hmarker) fun _ hc => ?_
      exact hrest.mapLeft fun _ _ hr => by simpa [hc] using hr
    · have hrest := ih h
      rw [Function.UnitDrops.seen_or] at hrest
      rw [implicitFunctions, implicitFunctions, ← hf.head.name]
      cases hentry : !seen && f.name == env.config.entryName with
      | true =>
        rw [hentry, if_pos rfl] at hrest
        rw [if_pos rfl, if_pos rfl, hempty, ← hf.head.returnType, hf.body.any_returnsValue,
          hloose.flow.1, hf.head.marker]
        extract_lets +lift returnsValue options finish finish'
        -- The report of moved statements stands in front of the same code.
        have hfinish : ∀ u u', Mirrored (Code.SameWith fns) (finish u) (finish' u') := by
          intro u u'
          refine .bind (mirrored_function _ options (fun _ => mirrored_stmts _ none hloose) hf)
            fun _ _ hc => ?_
          exact hrest.map fun _ _ hr => by simp [hc, hr.1]
        split
        · exact .bind (.report _ _) fun u u' _ => hfinish u u'
        · exact hfinish () ()
      | false =>
        rw [hentry, if_neg Bool.false_ne_true] at hrest
        rw [if_neg Bool.false_ne_true, if_neg Bool.false_ne_true]
        refine .bind (mirrored_function _ _ (fun _ => .pure rfl) hf) fun _ _ hc => ?_
        exact hrest.map fun _ _ hr => by simp [hc, hr.1, hr.2]

theorem mirrored_looseEntry {loose loose' : List Stmt} (h : Stmt.DropsAll fns loose loose') :
    Mirrored (Code.Same fns) (looseEntry env loose) (looseEntry env loose') := by
  rw [looseEntry, looseEntry, h.flow.1]
  exact (mirrored_stmts _ none h).map fun _ _ hc => by simp [hc]

theorem mirrored_implicitContainer {a b : Sections} (h : a.Drops fns env.config.entryName false b) :
    Mirrored (Code.SameWith fns) (implicitContainer env a) (implicitContainer env b) := by
  have hentry : (a.entry? env.config.entryName).isNone =
      (b.entry? env.config.entryName).isNone := by
    obtain ⟨ha, hb⟩ | ⟨f, g, ha, hb, -⟩ := h.functions.entry
    · rw [Sections.entry?, Sections.entry?, ha, hb]
    · rw [Sections.entry?, Sections.entry?, ha, hb]
      rfl
  unfold implicitContainer
  extract_lets config synthesized name finish synthesized' finish'
  have hsynthesized : synthesized = synthesized' := congrArg₂ and hentry (by rw [h.isEmpty_loose])
  have hfinish : ∀ helpers, Mirrored (Code.SameWith fns) (finish helpers) (finish' helpers) := by
    intro helpers
    refine .bind (mirrored_members _ .module h.members) fun _ _ hfields => ?_
    refine .bind (mirrored_implicitFunctions h.loose h.isEmpty_loose h.functions) fun r r' hr => ?_
    obtain ⟨functions, written⟩ := r
    obtain ⟨functions', written'⟩ := r'
    obtain ⟨hfunctions, rfl⟩ := hr
    dsimp only
    rw [hsynthesized]
    split
    · exact (mirrored_looseEntry h.loose).map fun _ _ hc => by simp [hfields, hfunctions, hc]
    · exact .pure (by simp [hfields, hfunctions])
  split
  · exact .same (.requireImport _) fun _ => .same (.pure rfl) hfinish
  · exact .same (.pure rfl) hfinish

/-! ### The unit -/

theorem mirrored_unitCode {a b : Sections} {ss ts : List Stmt}
    (h : a.Drops fns env.config.entryName false b) (hloose : a.hasLooseCode = b.hasLooseCode)
    (hentry : entryPoint? env.config ss a = entryPoint? env.config ts b) :
    Mirrored (Code.SameWith fns) (unitCode env ss a) (unitCode env ts b) := by
  unfold unitCode
  rw [h.raw]
  refine .same (target.blind_separatedRawCodes b.raw) fun _ => ?_
  refine .bind (mirrored_separated h.containers) fun _ _ hcontainers => ?_
  extract_lets finish finish'
  have hfinish : ∀ r r', Code.SameWith fns r r' → r.2 = implicitEntryPoint? env.config a →
      r'.2 = implicitEntryPoint? env.config b →
      Mirrored (Code.SameWith fns) (finish r) (finish' r') := by
    rintro ⟨code, entry⟩ ⟨code', entry'⟩ ⟨hcode, -⟩ rfl rfl
    dsimp only [finish, finish']
    unfold entryPoint? at hentry
    rw [hentry]
    split
    · exact .fail _
    · exact .pure ⟨by simp [hcontainers, hcode], rfl⟩
  rw [hloose]
  split
  · refine .bind ((mirrored_implicitContainer h).always (always_implicitContainer a)
      (always_implicitContainer b)) ?_
    rintro ⟨code, entry⟩ ⟨code', entry'⟩ ⟨⟨hcode, hsame⟩, ha, hb⟩
    exact hfinish (.separator :: code, entry) (.separator :: code', entry')
      ⟨by simp [hcode], hsame⟩ ha hb
  · rename_i hno
    exact hfinish ([], none) ([], none) ⟨rfl, rfl⟩
      (implicitEntryPoint?_of_not_hasLooseCode (hloose ▸ hno)).symm
      (implicitEntryPoint?_of_not_hasLooseCode hno).symm

theorem blind_typeAliases (aliases : List Alias) : Blind (typeAliases env aliases) := by
  induction aliases with
  | nil => exact .pure rfl
  | cons d ds ih =>
    rw [typeAliases]
    split
    · exact .same (blind_mapType d.target) fun _ => ih.mapEq _
    · exact .same (.report _ _) fun _ => ih

theorem mirrored_header {a b : Sections} (himports : a.imports = b.imports)
    (haliases : a.aliases = b.aliases) : Mirrored Eq (header env a) (header env b) := by
  unfold header
  rw [himports, haliases]
  refine .same (.forIn (fun d => ?_) b.imports) fun _ => ?_
  · split
    · exact .same (.requireImport _) fun _ => .pure rfl
    · exact .pure rfl
  · refine .same (blind_typeAliases b.aliases) fun _ => .bind .get fun _ _ hj => ?_
    rw [hj.imports]
    exact .pure rfl

/-- A unit without some declarations is written in the same way, up to blank lines. -/
theorem mirrored_generate {config : Config} {resolver : TypeResolver} {p q : Program}
    (h : p.Drops fns config.entryName q)
    (hloose : p.sections.hasLooseCode = q.sections.hasLooseCode)
    (hentry : entryPoint? config (Stmt.flattenAll p.stmts) p.sections =
      entryPoint? config (Stmt.flattenAll q.stmts) q.sections) :
    Mirrored (Generated.Resembles fns) (generate config resolver p)
      (generate config resolver q) := by
  obtain ⟨hknown, -, hnested⟩ := h.dropsAll.types
  unfold generate
  extract_lets +lift ss env sections build ss' env' sections' build'
  have henv : env' = env := by
    dsimp only [env, env', KnownTypes.collect]
    rw [hknown]
  have hsections : sections.Drops fns env.config.entryName false sections' := h.sections
  have hbuild : ∀ u, Mirrored (Generated.Resembles fns) (build u) (build' u) := by
    intro u
    dsimp only [build, build']
    rw [henv]
    refine .bind (mirrored_unitCode hsections hloose hentry) ?_
    rintro ⟨code, entry⟩ ⟨code', entry'⟩ ⟨hcode, rfl⟩
    refine .same (mirrored_header hsections.imports hsections.aliases) fun top => ?_
    refine .bind .get fun _ _ hj => ?_
    rw [hj.imports]
    exact .pure (Generated.resembles_of_same hcode _ top _ entry)
  rw [hnested]
  cases Stmt.findNestedType? ss' with
  | some found => exact .fail _
  | none => exact hbuild ()

end CSharp

end SourceGen
