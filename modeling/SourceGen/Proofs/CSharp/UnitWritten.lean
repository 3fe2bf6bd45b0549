import SourceGen.CSharp.Unit
import SourceGen.Proofs.CSharp.BodyWritten

/-!
# C# units are written

Declarations put plain blocks around functions and fields, so a whole unit belongs to the grammar
of C# bodies as well. No `break` stands outside a function.

## Main results

* `CSharp.written_member`: the code of members.
* `CSharp.written_unitCode`: the code of a unit.
* `CSharp.exists_programCode_of_generate`: a finished unit is the text of its code.
-/

namespace SourceGen

namespace CSharp

open Fragment (text)

variable {env : Env} {scope : Scope} {n : Nat}

/-! ### Members without members of their own -/

theorem written_rawCode {loop : Option LoopFrame} (raw : RawBlock) :
    (target.rawCode raw).Ensures n (Written loop [] n) := by
  refine (target.ensures_rawCode raw n).mono ?_
  rintro m code ⟨rfl, rfl | rfl⟩
  · exact .nil
  · exact .verbatim _

theorem written_separatedRawCodes (raws : List RawBlock) (n : Nat) :
    (target.separatedRawCodes raws).Ensures n (Written none [] n) := by
  induction raws generalizing n with
  | nil => exact .pure .nil
  | cons raw raws ih =>
    exact .bind (written_rawCode raw) fun m cs hcs => .bind (ih m) fun m' ds hds =>
      .pure ((Written.separator.append hcs).append hds)

theorem written_variantLines (variants : List EnumVariant) (n : Nat) :
    (variantLines env scope variants).Ensures n (Written none [] n) := by
  induction variants generalizing n with
  | nil => exact .pure .nil
  | cons variant variants ih =>
    obtain ⟨name, value⟩ := variant
    refine .bind (written_exprOption value n) fun m o ho => .bind (ih m) fun m' ds hds => ?_
    exact .pure ((Written.line (((ho.elim _).text_append _).append_text _)).append hds)

theorem written_enumCode (d : EnumDecl) :
    (enumCode env scope d).Ensures n (Written none [] n) := by
  refine .after (target.keepsLabels_skipMarked _ _ _) fun skipped => ?_
  split
  · exact .pure .nil
  refine .bind (written_attributeLines none d.attributes n) fun m ls hls => ?_
  refine .bind (written_variantLines d.variants m) fun m' cs hcs => .pure ?_
  exact (Written.separator.append hls).append (.plain (.text _) hcs)

/-- A field numbers its loops in order, outside of every loop. -/
theorem written_fieldCode (d : Field) :
    (fieldCode env scope d).Ensures n (Written none [] n) := by
  refine .after (target.keepsLabels_skipMarked _ _ _) fun skipped => ?_
  split
  · exact .pure .nil
  refine .bind (written_attributeLines none d.attributes n) fun m ls hls => ?_
  refine .after (keepsLabels_mapTypeOr _ _) fun spelling => ?_
  refine .bind (written_exprOption d.initializer m) fun m' o ho => .pure ?_
  exact hls.append (.line (((ho.elim _).text_append _).append_text _))

theorem written_accessorCode (accessors : List Accessor) (n : Nat) :
    (accessorCode env scope accessors).Ensures n (Written none [] n) := by
  induction accessors generalizing n with
  | nil => exact .pure .nil
  | cons accessor accessors ih =>
    simp only [accessorCode, pure_bind]
    split
    · exact .bind (written_stmts none _ n) fun m cs hcs => .bind (ih m) fun m' ds hds =>
        .pure ((Written.function (.text _) hcs).append hds)
    · exact .bind (ih n) fun m ds hds => .pure ((Written.text _).append hds)

/-- A property numbers its loops in order, outside of every loop. -/
theorem written_propertyCode (d : Property) :
    (propertyCode env scope d).Ensures n (Written none [] n) := by
  refine .after (target.keepsLabels_skipMarked _ _ _) fun skipped => ?_
  split
  · exact .pure .nil
  refine .bind (written_attributeLines none d.attributes n) fun m ls hls => ?_
  refine .after (keepsLabels_mapTypeOr _ _) fun spelling => ?_
  split
  · refine .bind (written_exprOption d.initializer m) fun m' o ho => .pure ?_
    refine hls.append (.line (WrittenFragment.text_append _ ?_))
    cases o with
    | none =>
      obtain rfl := ho
      exact .nil
    | some f => exact (WrittenFragment.text_append _ ho).append_text _
  · refine .bind (written_accessorCode d.accessors m) fun m' cs hcs => .pure ?_
    exact hls.append (Written.separator.append (.plain (.text _) hcs))

/-- The head of a type takes no label number. -/
theorem keepsLabels_typeHead {outer inner : Scope} {kind : TypeKind} {name : String}
    {modifiers : List Modifier} {generics : List GenericParam} {base : Option TypeRef}
    {interfaces : List TypeRef} :
    (typeHead env outer inner kind name modifiers generics base interfaces).KeepsLabels :=
  .bind (keepsLabels_mapTypes _) fun _ => .bind (keepsLabels_whereClauses _) fun _ => .pure _

theorem written_refuseMember (s : Stmt) :
    (refuseMember scope s).Ensures n (Written none [] n) :=
  .after (.report _) fun _ => .pure .nil

/-- Nothing in front of the body of a function. -/
theorem written_noPrologue (scope : Scope) (n : Nat) :
    ((fun _ => return [] : Scope → Gen (List Code)) scope).Ensures n
      fun m cs => ∃ ps, Written none ps n m cs :=
  .pure ⟨[], .nil⟩

/-! ### Members -/

mutual

/-- A member numbers its loops in order, by induction on its syntax. -/
theorem written_member {scope : Scope} (host : Host) :
    ∀ (s : Stmt) (n : Nat), (member env scope host s).Ensures n (Written none [] n)
  | .namespaceDecl name decls, n => by
    rw [member]
    split
    · exact .bind (written_separated decls n) fun m cs hcs => .pure (.plain (.text _) hcs)
    · exact .fail _
  | .typeDecl kind ⟨name, modifiers, attributes, generics, base, interfaces, decls⟩, n => by
    rw [member]
    split
    · exact .fail _
    refine .after (target.keepsLabels_skipMarked _ _ _) fun skipped => ?_
    split
    · exact .pure .nil
    refine .bind (written_attributeLines none attributes n) fun m ls hls => ?_
    refine .after keepsLabels_typeHead fun head => ?_
    refine .bind (written_members .type decls m) fun m' cs hcs => .pure ?_
    exact (Written.separator.append hls).append (.plain (.text _) hcs)
  | .enumDecl decl, n => by
    rw [member]
    split
    · exact .fail _
    · exact written_enumCode decl
  | .moduleDecl ⟨name, modifiers, attributes, decls⟩, n => by
    rw [member]
    split
    · exact .fail _
    refine .after (target.keepsLabels_skipMarked _ _ _) fun skipped => ?_
    split
    · exact .pure .nil
    refine .bind (written_attributeLines none attributes n) fun m ls hls => ?_
    refine .bind (written_members .module decls m) fun m' cs hcs => .pure ?_
    exact (Written.separator.append hls).append (.plain (.text _) hcs)
  | .functionDecl kind decl, n => by
    rw [member]
    split
    · exact .fail _
    · exact .bind (written_function none {} _ written_noPrologue decl n) fun m cs hcs =>
        .pure (Written.separator.append hcs)
  | .fieldDecl decl, n => by
    rw [member]
    split
    · exact .fail _
    · exact written_fieldCode decl
  | .propertyDecl decl, n => by
    rw [member]
    split
    · exact .fail _
    · exact written_propertyCode decl
  | .importDecl decl, n => by
    rw [member]
    split
    · exact .pure (.text _)
    · exact written_refuseMember _
  | .includeDecl _ decls, n => by
    rw [member]
    exact written_members host decls n
  | .raw block, n => by
    rw [member]
    exact written_rawCode block
  | .aliasDecl _, n | .binding _, n | .ifThen _ _ _, n | .whileLoop _ _, n | .forLoop _ _ _ _, n
  | .forEach _ _ _ _, n | .ret _, n | .breakLoop, n | .continueLoop, n | .matchOn _ _, n
  | .switchOn _ _, n | .expr _, n => by
    rw [member.eq_def]
    exact written_refuseMember _

/-- The same of members. -/
theorem written_members {scope : Scope} (host : Host) :
    ∀ (ss : List Stmt) (n : Nat), (members env scope host ss).Ensures n (Written none [] n)
  | [], n => by
    rw [members]
    exact .pure .nil
  | s :: ss, n => by
    rw [members]
    exact .bind (written_member host s n) fun m cs hcs =>
      .bind (written_members host ss m) fun m' ds hds => .pure (hcs.append hds)

theorem written_separated :
    ∀ (ss : List Stmt) (n : Nat), (separated env ss).Ensures n (Written none [] n)
  | [], n => by
    rw [separated]
    exact .pure .nil
  | s :: ss, n => by
    rw [separated]
    exact .bind (written_member .space s n) fun m cs hcs =>
      .bind (written_separated ss m) fun m' ds hds =>
        .pure ((Written.separator.append hcs).append hds)

end

/-! ### The unit -/

/-- Functions outside a class number their loops in order. -/
theorem written_implicitFunctions {loose : List Stmt} (fs : List Function) (entrySeen : Bool)
    (n : Nat) : (implicitFunctions env loose entrySeen fs).Ensures n
      fun m r => Written none [] n m r.1 := by
  induction fs generalizing entrySeen n with
  | nil => exact .pure .nil
  | cons f fs ih =>
    have hloose : ∀ (scope : Scope) (n : Nat), (stmts env scope none loose).Ensures n
        fun m cs => ∃ ps, Written none ps n m cs :=
      fun scope n => (written_stmts none loose n).mono fun _ _ hcs => ⟨_, hcs⟩
    rw [implicitFunctions]
    split
    · -- The entry function has the loose statements ahead of its own, under either name.
      have hentry : ∀ options, (do
          let code ← function env (implicitScope env.config) options
            (fun inner => stmts env inner none loose) f
          let r ← implicitFunctions env loose true fs
          return (Code.separator :: code ++ r.1, f.marker.isNone) : Gen _).Ensures n
          fun m r => Written none [] n m r.1 := fun options =>
        .bind (written_function none options _ hloose f n) fun _ _ hcs =>
          .bind (ih true _) fun _ _ hr => .pure ((Written.separator.append hcs).append hr)
      split
      · exact .after (.report _) fun _ => hentry _
      · exact hentry _
    · exact .bind (written_function none _ _ written_noPrologue f n) fun m cs hcs =>
        .bind (ih entrySeen m) fun m' r hr => .pure ((Written.separator.append hcs).append hr)

theorem written_looseEntry (loose : List Stmt) :
    (looseEntry env loose).Ensures n (Written none [] n) :=
  .bind (written_stmts none loose n) fun _ _ hcs =>
    .pure (Written.separator.append (.function (.text _) hcs))

/-- The implicit container numbers its loops in order. -/
theorem written_implicitContainer (sections : Sections) :
    (implicitContainer env sections).Ensures n fun m r => Written none [] n m r.1 := by
  unfold implicitContainer
  extract_lets config synthesized name build
  -- The helpers are raw text or nothing, and the same code follows.
  have hbuild : ∀ helpers, Written none [] n n helpers →
      (build helpers).Ensures n fun m r => Written none [] n m r.1 := by
    intro helpers hhelpers
    refine .bind (written_members .module sections.members n) fun m₁ fields hfields => ?_
    refine .bind (written_implicitFunctions sections.functions false m₁) fun m₂ r hr => ?_
    have hcode := (hhelpers.append hfields).append hr
    dsimp only
    split
    · refine .bind (written_looseEntry sections.loose) fun m₃ entry hentry => .pure ?_
      exact .plain (.text _) (.plain (.text _) (hcode.append hentry))
    · exact .pure (.plain (.text _) (.plain (.text _) (hcode.append .nil)))
  split
  · exact .after (.requireImport _) fun _ => hbuild _ (.verbatim _)
  · exact hbuild _ .nil

/-- A unit numbers its loops in order. -/
theorem written_unitCode (ss : List Stmt) (sections : Sections) :
    (unitCode env ss sections).Ensures n fun m r => Written none [] n m r.1 := by
  refine .bind (written_separatedRawCodes sections.raw n) fun m₁ raws hraws => ?_
  refine .bind (written_separated sections.containers m₁) fun m₂ cs hcs => ?_
  extract_lets +lift checkEntry
  have hcheck : ∀ m r, Written none [] m₂ m r.1 →
      (checkEntry r).Ensures m fun m r => Written none [] n m r.1 := by
    intro m r hr
    dsimp only [checkEntry]
    split
    · exact .failed _
    · exact .pure ((hraws.append hcs).append hr)
  split
  · exact .bind (written_implicitContainer sections) fun m r hr =>
      hcheck m (.separator :: r.1, r.2) (Written.separator.append hr)
  · exact hcheck m₂ ([], none) .nil

/-- The code of the unit of a program. -/
def programCode (config : Config) (resolver : TypeResolver) (program : Program) :
    Gen (List Code × Option String) :=
  let stmts := Stmt.flattenAll program.stmts
  unitCode ⟨config, KnownTypes.collect stmts, resolver⟩ stmts (Sections.of stmts)

/-- A program numbers its loops in order. -/
theorem written_programCode {config : Config} {resolver : TypeResolver} {program : Program} :
    (programCode config resolver program).Ensures n fun m r => Written none [] n m r.1 :=
  written_unitCode _ _

/-- A unit is written in two steps, its code and then the directives. -/
theorem exists_header_of_generate {config : Config} {resolver : TypeResolver} {program : Program}
    {g : Generated} {j k : Journal} (h : (generate config resolver program).Yields j g k) :
    ∃ (top : String) (code : List Code) (entry : Option String) (i : Journal),
      (programCode config resolver program).Yields j (code, entry) i ∧
        (header ⟨config, KnownTypes.collect (Stmt.flattenAll program.stmts), resolver⟩
          (Sections.of (Stmt.flattenAll program.stmts))).Yields i top k ∧
        g.source = (if top.isEmpty then Code.render (layoutStyle config) code
          else top ++ "\n" ++ Code.render (layoutStyle config) code) := by
  unfold generate at h
  extract_lets +lift stmts env sections build at h
  have hbuild : (build ()).Yields j g k := by
    split at h
    · obtain ⟨_, _, hfail, -⟩ := Gen.yields_bind.mp h
      exact absurd hfail Gen.not_yields_fail
    · exact h
  obtain ⟨⟨code, entry⟩, i, hcode, hrest⟩ := Gen.yields_bind.mp hbuild
  obtain ⟨top, i₁, htop, hrest⟩ := Gen.yields_bind.mp hrest
  obtain ⟨journal, i₂, hget, hrest⟩ := Gen.yields_bind.mp hrest
  obtain ⟨rfl, rfl⟩ := Gen.yields_get.mp hget
  obtain ⟨rfl, rfl⟩ := Gen.yields_pure.mp hrest
  exact ⟨top, code, entry, i, hcode, htop, rfl⟩

/-- The text of a finished unit is that of its directives and of its code. -/
theorem exists_programCode_of_generate {config : Config} {resolver : TypeResolver}
    {program : Program}
    {g : Generated} {j k : Journal} (h : (generate config resolver program).Yields j g k) :
    ∃ (top : String) (code : List Code) (entry : Option String) (i : Journal),
      (programCode config resolver program).Yields j (code, entry) i ∧
        g.source = top ++ Code.render (layoutStyle config) code := by
  obtain ⟨top, code, entry, i, hcode, -, hsource⟩ := exists_header_of_generate h
  by_cases htop : top.isEmpty
  · exact ⟨"", code, entry, i, hcode, by simp [hsource, htop]⟩
  · exact ⟨top ++ "\n", code, entry, i, hcode, by simp [hsource, htop]⟩

end CSharp

end SourceGen
