import SourceGen.Proofs.BackendRun
import SourceGen.Proofs.Rust.WrittenTypes

/-!
# Functions of traits and of their implementations

An implementation has to repeat the functions of its trait: it may define no other ones, and each
has the receiver of the trait. The receivers are read from the shapes of the unit on both sides, so
they agree. The functions are not the same in two cases: the shape of an interface also counts
marked members, which the trait leaves out, and a setter with a body is written whether or not the
interface asks for one.

## Main definitions

* `TypeDecl.declares`: an interface has an unmarked member for a function.

## Main results

* `Rust.receivers_agree`: the receivers in a trait and in its implementations.
* `Rust.impl_function_declared_iff`: which functions of an implementation its trait has.
-/

namespace SourceGen

namespace Program

/-- The types with members that the unit declares. -/
def declaredTypes (p : Program) : List (TypeKind × TypeDecl) :=
  Stmt.allDeclaredTypes (Stmt.flattenAll p.stmts)

/-- The types with members that are written for the unit. -/
def writtenTypes (p : Program) : List (TypeKind × TypeDecl) :=
  Stmt.allWrittenTypes (Stmt.flattenAll p.stmts)

/-- No two interfaces of the unit have the same name. -/
def HasDistinctInterfaces (p : Program) : Prop :=
  ((TypeDecl.interfacesOf p.declaredTypes).map (·.name)).Nodup

instance (p : Program) : Decidable p.HasDistinctInterfaces :=
  inferInstanceAs (Decidable (List.Nodup _))

end Program

namespace Rust

variable {formatter : Formatter} {config : Config} {program : Program} {g : Generated} {j : Journal}
  {d t : TypeDecl}
  {trait : TypeRef} {index : Nat}

/-! ### What the shapes of a unit say -/

/-- The interfaces whose shapes are collected. -/
def shapedInterfaces (program : Program) : List TypeDecl :=
  TypeDecl.interfacesOf (allTypesIn (Stmt.flattenAll program.stmts))

theorem sublist_shapedInterfaces (program : Program) :
    (shapedInterfaces program).Sublist (TypeDecl.interfacesOf program.declaredTypes) :=
  (sublist_allTypesIn _).filterMap _

theorem mem_interfacesOf_of_written (hd : (.interface, d) ∈ program.writtenTypes) :
    d ∈ TypeDecl.interfacesOf program.declaredTypes :=
  TypeDecl.mem_interfacesOf.mpr ((Stmt.sublist_allWrittenTypes _).subset hd)

section Distinct

variable (hnames : program.HasDistinctInterfaces)
include hnames

/-- Among interfaces of different names, the name of each one stands for its own shape, or it stands
for nothing. -/
theorem mem_shapedInterfaces_or (config : Config)
    (hd : d ∈ TypeDecl.interfacesOf program.declaredTypes) :
    d ∈ shapedInterfaces program ∨ (programEnv config program).traits.lookup d.name = none := by
  by_cases hname : d.name ∈ (shapedInterfaces program).map (·.name)
  · obtain ⟨d', hd', heq⟩ := List.mem_map.mp hname
    have hsame := List.inj_on_of_nodup_map hnames ((sublist_shapedInterfaces program).subset hd') hd
      heq
    exact .inl (hsame ▸ hd')
  · exact .inr (lookup_collectTraits_of_notMem hname)

theorem nodup_shapedInterfaces : ((shapedInterfaces program).map (·.name)).Nodup :=
  hnames.sublist ((sublist_shapedInterfaces program).map _)

/-- A method that an interface requires is one of its own. -/
theorem exists_function_of_agreed? (hd : d ∈ TypeDecl.interfacesOf program.declaredTypes)
    {method : String}
    (h : ((programEnv config program).traits.agreed? d.name method).isSome = true) :
    ∃ m ∈ Stmt.functionsOf d.members, m.name = method := by
  obtain hd | hnone := mem_shapedInterfaces_or hnames config hd
  · have hagreed := agreed?_collectTraits (nodup_shapedInterfaces hnames) hd method
    rw [programEnv] at h
    dsimp only at h
    rw [hagreed, Option.isSome_map] at h
    exact (TraitShape.isSome_receiver?_ofMembers d.members).mp h
  · rw [Traits.agreed?, hnone] at h
    cases h

/-- A property that an interface requires is one of its own. -/
theorem exists_property_of_any (hd : d ∈ TypeDecl.interfacesOf program.declaredTypes)
    {requires : String × Bool → Bool}
    (h : ((programEnv config program).traits.lookup d.name).any (·.properties.any requires) =
      true) :
    ∃ p ∈ Stmt.propertiesOf d.members,
      requires (p.name, p.accessors.any TraitShape.isSetter) = true := by
  obtain hd | hnone := mem_shapedInterfaces_or hnames config hd
  · have hrequired := required?_collectTraits (nodup_shapedInterfaces hnames) hd
    obtain ⟨shape, hshape, hproperties⟩ := Option.map_eq_some_iff.mp hrequired
    rw [programEnv] at h
    dsimp only at h
    rw [hshape, Option.any_some, hproperties, TraitShape.properties_ofMembers, List.any_map,
      List.any_eq_true] at h
    exact h
  · rw [hnone] at h
    cases h

end Distinct

/-- The trait at the place of the owner requires the member. -/
theorem requires_of_traitOwner? {env : Env} {traits : List TypeRef} {requires : TraitShape → Bool}
    (htrait : traits[index]? = some trait) (h : traitOwner? env traits requires = some index) :
    (env.traits.lookup trait.name).any requires = true := by
  obtain ⟨hlt, hrequires, -⟩ := List.findIdx?_eq_some_iff_getElem.mp h
  obtain rfl : traits[index] = trait := by
    rwa [List.getElem?_eq_getElem hlt, Option.some.injEq] at htrait
  exact hrequires

theorem agreed?_of_methodOwner? {env : Env} {traits : List TypeRef} {f : Function}
    (htrait : traits[index]? = some trait) (h : methodOwner? env traits f = some index) :
    (env.traits.agreed? trait.name f.name).isSome = true := by
  have hrequires := requires_of_traitOwner? htrait h
  unfold Traits.agreed?
  cases hlookup : env.traits.lookup trait.name with
  | none => simp [hlookup] at hrequires
  | some shape => simpa [hlookup] using hrequires

theorem agreedReceiver_of_agreed? {env : Env} {name : String} {f : Function} {r : Receiver}
    (h : env.traits.agreed? name f.name = some r) : agreedReceiver env name f = r := by
  unfold Traits.agreed? at h
  rw [agreedReceiver, h, Option.getD_some]

/-- The functions of the trait of an interface. -/
def traitFunctions (env : Env) (d : TypeDecl) : List Signature :=
  traitSignatures (agreedReceiver env d.name) d.members

/-- The functions of the implementation of an interface, listed at place `index`. -/
def implFunctions (env : Env) (t : TypeDecl) (index : Nat) (trait : TypeRef) : List Signature :=
  implSignatures env (implemented env t) index trait.name t.members

/-! ### Receivers -/

theorem mem_functionSignatures {f m : Function} {r r' : Receiver} :
    (⟨.method m, r⟩ : Signature) ∈ functionSignatures r' f ↔
      m = f ∧ f.isWritten = true ∧ r = r' := by
  rw [functionSignatures]
  split <;> rename_i h <;> simp [h]

theorem method_notMem_propertySignatures {m : Function} {r : Receiver} {setter : Bool}
    {name : String} : (⟨.method m, r⟩ : Signature) ∉ propertySignatures setter name := by
  cases setter <;> simp [propertySignatures]

theorem method_mem_traitSignatures {receiver : Function → Receiver} {members : List Stmt}
    {m : Function} {r : Receiver} :
    (⟨.method m, r⟩ : Signature) ∈ traitSignatures receiver members ↔
      m ∈ Stmt.functionsOf members ∧ m.isWritten = true ∧ r = receiver m := by
  rw [traitSignatures, List.mem_flatMap, Stmt.mem_functionsOf]
  constructor
  · rintro ⟨s, hs, hmem⟩
    cases s with
    | functionDecl kind f =>
      obtain ⟨rfl, hwritten, hr⟩ := mem_functionSignatures.mp hmem
      exact ⟨⟨kind, hs⟩, hwritten, hr⟩
    | propertyDecl p =>
      rw [memberSignatures] at hmem
      split at hmem
      · cases hmem
      · exact absurd hmem method_notMem_propertySignatures
    | _ => cases hmem
  · rintro ⟨⟨kind, hs⟩, hwritten, hr⟩
    exact ⟨_, hs, mem_functionSignatures.mpr ⟨rfl, hwritten, hr⟩⟩

theorem method_mem_implSignatures {env : Env} {traits : List TypeRef} {name : String}
    {members : List Stmt} {m : Function} {r : Receiver} :
    (⟨.method m, r⟩ : Signature) ∈ implSignatures env traits index name members ↔
      m ∈ sharedMethods env traits index members ∧ m.isWritten = true ∧
        r = agreedReceiver env name m := by
  have haccessors : ∀ p : Property,
      (⟨.method m, r⟩ : Signature) ∉ accessorSignatures p.name p.accessors := by
    intro p hmem
    obtain ⟨a, -, ha⟩ := List.mem_map.mp hmem
    split at ha <;> cases ha
  simp only [implSignatures, List.mem_append, List.mem_flatMap, haccessors, and_false, exists_false,
    method_notMem_propertySignatures, or_false, false_or, mem_functionSignatures]
  constructor
  · rintro ⟨f, hf, rfl, hwritten, hr⟩
    exact ⟨hf, hwritten, hr⟩
  · rintro ⟨hm, hwritten, hr⟩
    exact ⟨m, hm, rfl, hwritten, hr⟩

/-- Among interfaces of different names, whose methods have different names, and without includes
in namespaces and modules: for each interface that is written, its trait and the implementations for
all classes and structs give each of its methods the same receiver, the one that the unit as a whole
asks for. -/
theorem receivers_agree (h : (generate formatter config program).run' = (.ok g, j))
    (hnames : program.HasDistinctInterfaces)
    (hmethods : ∀ d ∈ TypeDecl.interfacesOf program.declaredTypes,
      ((Stmt.functionsOf d.members).map (·.name)).Nodup)
    (hincludes : Stmt.anyHoldsInclude (Stmt.flattenAll program.stmts) = false) :
    ∃ (top : String) (code : List Code),
      g.source = formatter.finish config.formatOutput
        (top ++ Code.render (layoutStyle config) code) ∧
      ∀ d : TypeDecl, (.interface, d) ∈ program.writtenTypes →
        ∃ sigs : List Signature, Holds (IsTrait d sigs) code ∧
          (∀ m r, ⟨.method m, r⟩ ∈ sigs ↔ m ∈ Stmt.functionsOf d.members ∧ m.isWritten = true ∧
            r = unitReceiver program.declaredTypes d m) ∧
          ∀ (kind : TypeKind) (t : TypeDecl), kind ≠ .interface → (kind, t) ∈ program.writtenTypes →
            ∀ (index : Nat) (trait : TypeRef),
              (implemented (programEnv config program) t)[index]? = some trait →
                trait.name = d.name →
              ∃ sigs' : List Signature,
                Holds (IsImpl (programEnv config program) t trait sigs') code ∧
                ∀ f r, ⟨.method f, r⟩ ∈ sigs' ↔
                  f ∈ sharedMethods (programEnv config program)
                    (implemented (programEnv config program) t) index t.members ∧
                  f.isWritten = true ∧ ∃ m ∈ Stmt.functionsOf d.members, m.name = f.name ∧
                    r = unitReceiver program.declaredTypes d m := by
  obtain ⟨top, code, hasEntry, k, hcode, hsource⟩ := exists_programCode_of_generate h
  refine ⟨top, code, hsource, fun d hd => ?_⟩
  -- Without includes below the top, all declared types have collected shapes.
  have htypes : allTypesIn (Stmt.flattenAll program.stmts) = program.declaredTypes :=
    allTypesIn_eq _ hincludes
  have hdeclared := mem_interfacesOf_of_written hd
  have hagreed : ∀ m ∈ Stmt.functionsOf d.members,
      (programEnv config program).traits.agreed? d.name m.name =
        some (unitReceiver program.declaredTypes d m) := by
    intro m hm
    rw [← htypes]
    exact agreed?_collectTraits_of_mem (by rw [htypes]; exact hnames) (by rwa [htypes])
      (hmethods d hdeclared) hm
  refine ⟨_, holds_trait (holdsType_programCode hcode hd), fun m r => ?_, ?_⟩
  · rw [method_mem_traitSignatures]
    refine and_congr_right fun hm => and_congr_right fun _ => ?_
    rw [agreedReceiver_of_agreed? (hagreed m hm)]
  · intro kind t hkind ht index trait htrait hname
    refine ⟨_, holds_impl hkind (holdsType_programCode hcode ht) htrait, fun f r => ?_⟩
    rw [method_mem_implSignatures, hname]
    refine and_congr_right fun hf => and_congr_right fun _ => ?_
    have howner : methodOwner? (programEnv config program)
        (implemented (programEnv config program) t) f = some index := by
      simpa using (Bool.and_eq_true_iff.mp (List.mem_filter.mp hf).2).2
    have hsome := agreed?_of_methodOwner? htrait howner
    constructor
    · rintro rfl
      -- The method belongs to this interface, so the interface has one of its name.
      rw [hname] at hsome
      obtain ⟨m, hm, hmname⟩ := exists_function_of_agreed? hnames hdeclared hsome
      exact ⟨m, hm, hmname, agreedReceiver_of_agreed? (hmname ▸ hagreed m hm)⟩
    · rintro ⟨m, hm, hmname, rfl⟩
      exact (agreedReceiver_of_agreed? (hmname ▸ hagreed m hm)).symm

/-- A program that a backend has events for without a refusal is generated. -/
theorem exists_run_of_notMem (config : Config) (program : Program)
    (h : .refusal ∉ Backend.events ⟨.rust, config, Resolver.dotnet⟩ program) :
    ∃ (g : Generated) (j : Journal), (generate .absent config program).run' = (.ok g, j) := by
  obtain ⟨g, hg⟩ := Backend.generates_iff.mpr h
  obtain ⟨j, hj⟩ := Backend.exists_run_of_generate hg
  exact ⟨g, j, hj⟩

/-- A method of an interface whose implementation counts its calls. -/
def countedCalls : Program :=
  ⟨[.typeDecl .interface ⟨"Source", [], [], [], none, [],
      [.functionDecl .method ⟨"next", [], none, [], [], [], none, false, false⟩]⟩,
    .typeDecl .cls ⟨"Counter", [], [], [], none, [.named "Source"],
      [.functionDecl .method ⟨"next", [], none, [], [], [],
        some [.expr (.unary .plusPlus (.member .this "calls") true)], false, false⟩]⟩,
    .functionDecl .function ⟨"main", [], none, [], [], [], some [], false, false⟩]⟩

/-- The trait and the implementation take an exclusive receiver, although the interface itself does
not ask for one. -/
theorem countedCalls_is_exclusive :
    ∃ (g : Generated) (j : Journal) (top : String) (code : List Code) (d t : TypeDecl)
      (m f : Function) (sigs sigs' : List Signature),
      (generate .absent {} countedCalls).run' = (.ok g, j) ∧
        g.source = top ++ Code.render (layoutStyle {}) code ∧
        d.name = "Source" ∧ m ∈ Stmt.functionsOf d.members ∧ m.name = "next" ∧
        receiverOf m = .shared ∧ Holds (IsTrait d sigs) code ∧ ⟨.method m, .exclusive⟩ ∈ sigs ∧
        t.name = "Counter" ∧ f ∈ Stmt.functionsOf t.members ∧ f.name = "next" ∧
        Holds (IsImpl (programEnv {} countedCalls) t (.named "Source") sigs') code ∧
        ⟨.method f, .exclusive⟩ ∈ sigs' := by
  obtain ⟨g, j, hg⟩ := exists_run_of_notMem {} countedCalls (by decide)
  obtain ⟨top, code, hsource, hall⟩ := receivers_agree hg (by decide) (by decide) rfl
  obtain ⟨sigs, htrait, hsigs, himpls⟩ := hall _ (List.mem_cons_self)
  obtain ⟨sigs', himpl, hsigs'⟩ := himpls .cls _ (by decide)
    (List.mem_cons_of_mem _ List.mem_cons_self) 0 (.named "Source") rfl rfl
  refine ⟨_, _, top, code, _, _, _, _, sigs, sigs', hg, hsource, rfl, List.mem_cons_self, rfl, rfl,
    htrait, (hsigs _ _).mpr ⟨List.mem_cons_self, rfl, rfl⟩, rfl, List.mem_cons_self, rfl, himpl,
    (hsigs' _ _).mpr ⟨List.mem_cons_self, rfl, _, List.mem_cons_self, rfl, rfl⟩⟩

/-! ### Names -/

/-- The functions are written for members of the same kind and name. -/
def Origin.Matches : Origin → Origin → Prop
  | .method f, .method g => f.name = g.name
  | .getter p, .getter q => p = q
  | .setter p, .setter q => p = q
  | _, _ => False

theorem Origin.Matches.name_eq {o o' : Origin} (h : o.Matches o') : o.name = o'.name := by
  cases o <;> cases o' <;> simp_all [Matches, Origin.name]

end Rust

/-- The member of an interface asks for the function. -/
def Stmt.asksFor : Stmt → Rust.Origin → Bool
  | .functionDecl _ m, .method f => m.name == f.name
  | .propertyDecl p, .getter name => p.name == name
  | .propertyDecl p, .setter name => p.name == name && p.accessors.any Rust.TraitShape.isSetter
  | _, _ => false

/-- The function or property has no marker. -/
def Stmt.isUnmarked : Stmt → Bool
  | .functionDecl _ f => f.marker.isNone
  | .propertyDecl p => p.marker.isNone
  | _ => true

/-- A member of the interface asks for the function, be it marked or not. -/
def TypeDecl.asksFor (d : TypeDecl) (o : Rust.Origin) : Bool :=
  d.members.any (·.asksFor o)

/-- A member of the interface that is not marked asks for the function. -/
def TypeDecl.declares (d : TypeDecl) (o : Rust.Origin) : Bool :=
  d.members.any fun s => s.isUnmarked && s.asksFor o

/-- The function is the setter of a property whose setter has a body. -/
def TypeDecl.definesSetter (d : TypeDecl) : Rust.Origin → Bool
  | .setter name => (Stmt.propertiesOf d.members).any fun p =>
    p.name == name && p.accessors.any fun a => a.body.isSome && Rust.TraitShape.isSetter a
  | _ => false

namespace Rust

variable {formatter : Formatter} {config : Config} {program : Program} {g : Generated} {j : Journal}
  {d t : TypeDecl}
  {trait : TypeRef} {index : Nat}

/-- The name of the function that is written is no path. -/
def Origin.isSimple : Origin → Bool
  | .method f => !f.isQualified
  | _ => true

theorem exists_matches_memberSignatures_iff {receiver : Function → Receiver} {s : Stmt}
    {o : Origin} (ho : o.isSimple = true) :
    (∃ s' ∈ memberSignatures receiver s, s'.origin.Matches o) ↔
      s.isUnmarked = true ∧ s.asksFor o = true := by
  cases s with
  | functionDecl kind m =>
    cases o with
    | method f =>
      -- A function of the same name has no path for a name either.
      have hsimple : m.name = f.name → m.isQualified = false := by
        intro hname
        rw [Function.isQualified, hname]
        simpa [Origin.isSimple, Function.isQualified] using ho
      cases hmarker : m.marker with
      | none =>
        simp only [memberSignatures, functionSignatures, Function.isWritten, hmarker,
          Stmt.isUnmarked, Stmt.asksFor, Option.isNone_none, Bool.true_and, true_and,
          beq_iff_eq]
        constructor
        · rintro ⟨s', hs', hmatches⟩
          split at hs'
          · obtain rfl := List.mem_singleton.mp hs'
            exact hmatches
          · cases hs'
        · intro hname
          rw [hsimple hname]
          exact ⟨_, List.mem_singleton.mpr rfl, hname⟩
      | some marker => simp [memberSignatures, functionSignatures, Function.isWritten, hmarker,
          Stmt.isUnmarked]
    | _ =>
      simp only [memberSignatures, functionSignatures, Stmt.asksFor, Bool.false_eq_true, and_false,
        iff_false]
      rintro ⟨s', hs', hmatches⟩
      split at hs'
      · obtain rfl := List.mem_singleton.mp hs'
        exact hmatches
      · cases hs'
  | propertyDecl p =>
    cases hmarker : p.marker with
    | none =>
      cases hsetter : p.accessors.any TraitShape.isSetter <;> cases o <;>
        simp [memberSignatures, propertySignatures, Stmt.isUnmarked, Stmt.asksFor, Origin.Matches,
          hmarker, hsetter]
    | some marker => simp [memberSignatures, Stmt.isUnmarked, hmarker]
  | _ => simp [memberSignatures, Stmt.asksFor]

/-- A trait has a function exactly if an unmarked member of the interface asks for it. -/
theorem exists_matches_iff (receiver : Function → Receiver) (d : TypeDecl) {o : Origin}
    (ho : o.isSimple = true) :
    (∃ s' ∈ traitSignatures receiver d.members, s'.origin.Matches o) ↔ d.declares o = true := by
  rw [TypeDecl.declares, List.any_eq_true]
  constructor
  · rintro ⟨s', hs', hmatches⟩
    obtain ⟨s, hs, hs'⟩ := List.mem_flatMap.mp hs'
    have hasks := (exists_matches_memberSignatures_iff ho).mp ⟨s', hs', hmatches⟩
    exact ⟨s, hs, Bool.and_eq_true_iff.mpr hasks⟩
  · rintro ⟨s, hs, hasks⟩
    obtain ⟨s', hs', hmatches⟩ :=
      (exists_matches_memberSignatures_iff ho).mpr (Bool.and_eq_true_iff.mp hasks)
    exact ⟨s', List.mem_flatMap.mpr ⟨s, hs, hs'⟩, hmatches⟩

/-! ### What implementations define -/

/-- What an implementation defines has a simple name, and a member of the interface asks for it, or
it is a setter with a body. -/
theorem asksFor_of_mem_implSignatures (hnames : program.HasDistinctInterfaces)
    (hd : d ∈ TypeDecl.interfacesOf program.declaredTypes) {traits : List TypeRef}
    (htrait : traits[index]? = some trait) (hname : trait.name = d.name) {s : Signature}
    (hs : s ∈ implSignatures (programEnv config program) traits index trait.name t.members) :
    s.origin.isSimple = true ∧
      (d.asksFor s.origin = true ∨ t.definesSetter s.origin = true) := by
  -- A property that falls to a trait is one that a trait of this name asks for.
  have hgetter : ∀ {auto : Bool} {p : Property},
      p ∈ sharedProperties (programEnv config program) traits index auto t.members →
        d.asksFor (.getter p.name) = true := by
    intro auto p hp
    have howner := (Bool.and_eq_true_iff.mp (List.mem_filter.mp hp).2).2
    have hrequires := requires_of_traitOwner? htrait (beq_iff_eq.mp howner)
    rw [hname] at hrequires
    obtain ⟨q, hq, hqname⟩ := exists_property_of_any hnames hd hrequires
    exact List.any_eq_true.mpr ⟨_, Stmt.mem_propertiesOf.mp hq, hqname⟩
  rw [implSignatures, List.mem_append, List.mem_append] at hs
  rcases hs with (hs | hs) | hs
  · -- Automatic properties: a setter is written only where the trait has one.
    obtain ⟨_, hmem, hs⟩ := List.mem_flatMap.mp hs
    obtain ⟨p, hp, rfl⟩ := List.mem_map.mp hmem
    rw [propertySignatures, List.mem_cons] at hs
    rcases hs with rfl | hs
    · exact ⟨rfl, .inl (hgetter hp)⟩
    · split at hs
      · rename_i hsetter
        obtain rfl := List.mem_singleton.mp hs
        rw [hname] at hsetter
        obtain ⟨q, hq, hqname⟩ := exists_property_of_any hnames hd hsetter
        exact ⟨rfl, .inl (List.any_eq_true.mpr ⟨_, Stmt.mem_propertiesOf.mp hq, hqname⟩)⟩
      · cases hs
  · -- Written accessors: a setter is there because the type has one.
    obtain ⟨p, hp, hs⟩ := List.mem_flatMap.mp hs
    obtain ⟨a, ha, rfl⟩ := List.mem_map.mp hs
    split
    · rename_i hsetter
      obtain ⟨ha, hbody⟩ := List.mem_filter.mp ha
      refine ⟨rfl, .inr (List.any_eq_true.mpr ⟨p, (List.mem_filter.mp hp).1, ?_⟩)⟩
      rw [beq_self_eq_true, Bool.true_and, List.any_eq_true]
      exact ⟨a, ha, Bool.and_eq_true_iff.mpr ⟨hbody, hsetter⟩⟩
    · exact ⟨rfl, .inl (hgetter hp)⟩
  · -- Methods fall to a trait that has one of their name.
    obtain ⟨f, hf, hs⟩ := List.mem_flatMap.mp hs
    rw [functionSignatures] at hs
    split at hs
    · rename_i hwritten
      obtain rfl := List.mem_singleton.mp hs
      refine ⟨(Bool.and_eq_true_iff.mp hwritten).2, .inl ?_⟩
      have howner := (Bool.and_eq_true_iff.mp (List.mem_filter.mp hf).2).2
      have hagreed := agreed?_of_methodOwner? htrait (by simpa using howner)
      rw [hname] at hagreed
      obtain ⟨m, hm, hmname⟩ := exists_function_of_agreed? hnames hd hagreed
      obtain ⟨kind, hm⟩ := Stmt.mem_functionsOf.mp hm
      exact List.any_eq_true.mpr ⟨_, hm, by simpa [Stmt.asksFor] using hmname⟩
    · cases hs

/-- Among interfaces of different names: a function in the implementation of an interface that is
written has the name of a function in the trait if an unmarked member of the interface asks for it.
Otherwise the trait has no such function; then only marked members ask for it, or it is a setter
with a body that the interface does not ask for. -/
theorem impl_function_declared_iff (h : (generate formatter config program).run' = (.ok g, j))
    (hnames : program.HasDistinctInterfaces) :
    ∃ (top : String) (code : List Code),
      g.source = formatter.finish config.formatOutput
        (top ++ Code.render (layoutStyle config) code) ∧
      ∀ d : TypeDecl, (.interface, d) ∈ program.writtenTypes →
        Holds (IsTrait d (traitFunctions (programEnv config program) d)) code ∧
          ∀ (kind : TypeKind) (t : TypeDecl), kind ≠ .interface → (kind, t) ∈ program.writtenTypes →
            ∀ (index : Nat) (trait : TypeRef),
              (implemented (programEnv config program) t)[index]? = some trait →
                trait.name = d.name →
                Holds (IsImpl (programEnv config program) t trait
                  (implFunctions (programEnv config program) t index trait)) code ∧
                ∀ s ∈ implFunctions (programEnv config program) t index trait,
                  ((∃ s' ∈ traitFunctions (programEnv config program) d,
                    s'.origin.Matches s.origin) ↔ d.declares s.origin = true) ∧
                  (d.declares s.origin = true →
                    ∃ s' ∈ traitFunctions (programEnv config program) d,
                      s'.origin.name = s.origin.name) ∧
                  (d.declares s.origin = false →
                    d.asksFor s.origin = true ∨ t.definesSetter s.origin = true) := by
  obtain ⟨top, code, hasEntry, k, hcode, hsource⟩ := exists_programCode_of_generate h
  refine ⟨top, code, hsource, fun d hd => ?_⟩
  refine ⟨holds_trait (holdsType_programCode hcode hd), ?_⟩
  intro kind t hkind ht index trait htrait hname
  refine ⟨holds_impl hkind (holdsType_programCode hcode ht) htrait, fun s hs => ?_⟩
  -- What an impl holds was asked for by a trait of that name, and names are unique.
  obtain ⟨hsimple, hasks⟩ := asksFor_of_mem_implSignatures (t := t) hnames
    (mem_interfacesOf_of_written hd) htrait hname hs
  have hmatches := exists_matches_iff (agreedReceiver (programEnv config program) d.name) d hsimple
  refine ⟨hmatches, fun hdeclares => ?_, fun _ => hasks⟩
  obtain ⟨s', hs', hmatches⟩ := hmatches.mpr hdeclares
  exact ⟨s', hs', hmatches.name_eq⟩

/-- An interface that asks for a getter alone, and a class whose property has a setter as well. -/
def setterOnTop : Program :=
  ⟨[.typeDecl .interface ⟨"Named", [], [], [], none, [],
      [.propertyDecl ⟨"name", some (.named "string"), [], [], [⟨.get, [], none⟩], none⟩]⟩,
    .typeDecl .cls ⟨"User", [], [], [], none, [.named "Named"],
      [.propertyDecl ⟨"name", some (.named "string"), [], [],
        [⟨.get, [], some [.ret (some (.member .this "text"))]⟩,
          ⟨.set, [], some [.expr (.assign (.member .this "text") .equal (.ident "value"))]⟩],
        none⟩]⟩,
    .functionDecl .function ⟨"main", [], none, [], [], [], some [], false, false⟩]⟩

/-- The setter stands in the implementation, and no function of the trait has its name. -/
theorem setterOnTop_is_undeclared :
    ∃ (g : Generated) (j : Journal) (top : String) (code : List Code) (d t : TypeDecl)
      (sigs sigs' : List Signature),
      (generate .absent {} setterOnTop).run' = (.ok g, j) ∧
        g.source = top ++ Code.render (layoutStyle {}) code ∧
        Holds (IsTrait d sigs) code ∧
        Holds (IsImpl (programEnv {} setterOnTop) t (.named "Named") sigs') code ∧
        "name" ∈ sigs.map (·.origin.name) ∧ "name" ∈ sigs'.map (·.origin.name) ∧
        "set_name" ∉ sigs.map (·.origin.name) ∧ "set_name" ∈ sigs'.map (·.origin.name) ∧
        d.asksFor (.setter "name") = false ∧ t.definesSetter (.setter "name") = true ∧
        ∀ s ∈ sigs', d.declares s.origin = true → ∃ s' ∈ sigs, s'.origin.name = s.origin.name := by
  obtain ⟨g, j, hg⟩ := exists_run_of_notMem {} setterOnTop (by decide)
  obtain ⟨top, code, hsource, hall⟩ := impl_function_declared_iff hg (by decide)
  obtain ⟨htrait, himpls⟩ := hall _ (List.mem_cons_self)
  obtain ⟨himpl, hsigs⟩ := himpls .cls _ (by decide)
    (List.mem_cons_of_mem _ List.mem_cons_self) 0 (.named "Named") rfl rfl
  refine ⟨g, j, top, code, _, _, _, _, hg, hsource, htrait, himpl, ?_, ?_, ?_, ?_, ?_, ?_,
    fun s hs => (hsigs s hs).2.1⟩
  all_goals decide

end Rust

end SourceGen
