import SourceGen.Proofs.Rust.ItemDrops
import SourceGen.Proofs.UnitDrops
import SourceGen.Proofs.UnitSections
import SourceGen.Rust.Unit

/-!
# Rust units without some marked declarations

A unit without some marked declarations keeps its entry function, so `main` is written as before and
runs the same loose statements. The whole unit is written in the same way, up to separators, as long
as the traits that are asked about the members left agree about them.

## Main results

* `Rust.mirrored_plainFunctions`: functions without some of them.
* `Rust.mirrored_compose`: units without some declarations.
-/

namespace SourceGen

namespace Rust

open Gen (Blind Idle Mirrored)

variable {env : Env} {traits : Traits} {fns : Bool}

/-! ### Functions and the entry point -/

theorem mirrored_plainFunctions {fs gs : List Function} {seen : Bool}
    (h : Function.UnitDrops fns env.config.entryName seen fs gs) :
    Mirrored (Code.Same fns) (plainFunctions env seen fs)
      (plainFunctions (env.withTraits traits) seen gs) := by
  induction fs generalizing gs seen with
  | nil =>
    cases h
    exact .pure rfl
  | cons f fs ih =>
    obtain ⟨⟨hfns, hmarker⟩, hother, h⟩ | ⟨g, gs, rfl, hf, h⟩ := h
    · have hrest : Mirrored _ _ (plainFunctions (env.withTraits traits) _ _) := ih h
      subst hfns
      rw [plainFunctions, hother, if_neg Bool.false_ne_true]
      refine .idle (idle_function hmarker) fun _ hc => ?_
      exact hrest.mapLeft fun _ _ hd => by simp [hc, hd]
    · have hrest : Mirrored _ _ (plainFunctions (env.withTraits traits) _ _) := ih h
      rw [Function.UnitDrops.seen_or] at hrest
      rw [plainFunctions, plainFunctions, ← hf.head.name, ← hf.head.modifiers]
      cases hentry : !seen && f.name == env.config.entryName with
      | true =>
        rw [hentry, if_pos rfl] at hrest
        rw [if_pos rfl, if_pos rfl]
        exact hrest
      | false =>
        rw [hentry, if_neg Bool.false_ne_true] at hrest
        rw [if_neg Bool.false_ne_true, if_neg Bool.false_ne_true]
        refine .bind (mirrored_function {} _ (fun _ => .pure rfl) hf) fun _ _ hc => ?_
        exact hrest.map fun _ _ hd => by simp [hc, hd]

theorem mirrored_entryCode {f g : Function} (hf : f.Drops fns g) {loose loose' : List Stmt}
    (hloose : Stmt.DropsAll fns loose loose') (hempty : loose.isEmpty = loose'.isEmpty) :
    Mirrored (Code.SameWith fns) (entryCode env f loose)
      (entryCode (env.withTraits traits) g loose') := by
  unfold entryCode
  rw [hf.head.marker, hempty, hf.head.returnType, hf.body.any_returnsValue, hloose.flow.1]
  split
  · exact (mirrored_function {} {} (fun _ => .pure rfl) hf).map fun _ _ hc => ⟨hc, rfl⟩
  · extract_lets +lift finish finish'
    have hfinish : ∀ u u', Mirrored (Code.SameWith fns) (finish u) (finish' u') := by
      intro u u'
      refine .same (.optionMapM blind_mapType g.returnType) fun declared => ?_
      refine (mirrored_function {} _ (fun _ => mirrored_stmts _ hloose) hf).map fun _ _ hc => ?_
      simp [hc]
    split
    · exact .bind (.report _ _) fun u u' _ => hfinish u u'
    · exact hfinish () ()

theorem mirrored_looseMain {loose loose' : List Stmt} (h : Stmt.DropsAll fns loose loose') :
    Mirrored (Code.Same fns) (looseMain env loose) (looseMain (env.withTraits traits) loose') := by
  refine .bind (mirrored_stmts {} h) fun _ _ hc => ?_
  rw [h.flow.1]
  split
  · exact .pure (by simp [hc])
  · exact .pure (by simp [hc])

/-! ### The unit -/

theorem mirrored_unitCode {ss : List Stmt} {b : Sections}
    (h : (Sections.of ss).Drops fns env.config.entryName false b)
    (hagree : ∀ query ∈ Stmt.allTraitQueries b.containers,
      env.traits.AgreeAbout traits query.1 query.2) :
    Mirrored (Code.SameWith fns) (unitCode env (Sections.of ss))
      (unitCode (env.withTraits traits) b) := by
  unfold unitCode
  extract_lets finish finish'
  have hfinish : Mirrored (Code.SameWith fns) (finish ()) (finish' ()) := by
    have hraw : Mirrored Eq (target.separatedRawCodes (Sections.of ss).raw)
        (target.separatedRawCodes b.raw) := h.raw ▸ target.blind_separatedRawCodes _
    refine .same hraw fun _ => ?_
    refine .bind (mirrored_items {} .space h.containers hagree) fun _ _ hcontainers => ?_
    refine .bind (mirrored_plainFunctions h.functions) fun _ _ hfunctions => ?_
    extract_lets last last'
    have hlast : ∀ r r', Code.SameWith fns r r' →
        Mirrored (Code.SameWith fns) (last r) (last' r') := by
      rintro ⟨code, hasEntry⟩ ⟨code', hasEntry'⟩ ⟨hcode, rfl⟩
      dsimp only [last, last']
      split
      · exact .fail _
      · exact .pure ⟨by simp [hcontainers, hfunctions, hcode], rfl⟩
    obtain ⟨ha, hb⟩ | ⟨f, g, ha, hb, hf⟩ := h.functions.entry
    · rw [Sections.entry?, Sections.entry?, ha, hb, h.isEmpty_loose]
      dsimp only
      split
      · exact .bind (.pure ⟨rfl, rfl⟩) hlast
      · refine .bind (mirrored_looseMain h.loose) fun _ _ hc => ?_
        exact .bind (.pure ⟨hc, rfl⟩) hlast
    · rw [Sections.entry?, Sections.entry?, ha, hb]
      exact .bind (mirrored_entryCode hf h.loose h.isEmpty_loose) hlast
  -- With a member outside any type there is no unit at all.
  cases hmembers : (Sections.of ss).members with
  | nil =>
    have hb : b.members = [] := by
      have hdrops := h.members
      rwa [hmembers] at hdrops
    rw [hb]
    exact hfinish
  | cons s rest =>
    have hs : s.isMember = true := by
      rw [Sections.members_of] at hmembers
      exact (List.mem_filter.mp (hmembers ▸ List.mem_cons_self)).2
    cases s with
    | fieldDecl | propertyDecl => exact .fail _
    | _ => cases hs

theorem mirrored_header {a b : Sections} (himports : a.imports = b.imports)
    (haliases : a.aliases = b.aliases) :
    Mirrored Eq (header env a) (header (env.withTraits traits) b) := by
  unfold header
  rw [himports, haliases]
  refine .same (.forIn (fun d => ?_) b.imports) fun _ => ?_
  · exact .same (.requireImport _) fun _ => .pure rfl
  · have haliases : Blind (b.aliases.mapM (aliasLine env {})) :=
      .mapM (fun d => (blind_mapType d.target).mapEq _) b.aliases
    refine .same haliases fun _ => ?_
    refine .bind .get fun _ _ hj => ?_
    rw [hj.imports]
    exact .pure rfl

/-- A unit without some declarations is written in the same way, up to blank lines. -/
theorem mirrored_compose {config : Config} {p q : Program}
    (h : p.Drops fns config.entryName q)
    (hagree : ∀ query ∈ Stmt.allTraitQueries q.sections.containers,
      (collectTraits (Stmt.flattenAll p.stmts)).AgreeAbout
        (collectTraits (Stmt.flattenAll q.stmts)) query.1 query.2) :
    Mirrored (Generated.Resembles fns) (compose config p) (compose config q) := by
  obtain ⟨hknown, -, hnested⟩ := h.dropsAll.types
  unfold compose
  extract_lets +lift ss env sections build ss' env' sections' build'
  have henv : env' = env.withTraits (collectTraits ss') := by
    dsimp only [env, env', KnownTypes.collect]
    rw [hknown]
  have hsections : sections.Drops fns env.config.entryName false sections' := h.sections
  have hbuild : ∀ u, Mirrored (Generated.Resembles fns) (build u) (build' u) := by
    intro u
    dsimp only [build, build']
    rw [henv]
    refine .bind (mirrored_unitCode hsections hagree) ?_
    rintro ⟨code, hasEntry⟩ ⟨code', hasEntry'⟩ ⟨hcode, rfl⟩
    refine .same (mirrored_header hsections.imports hsections.aliases) fun top => ?_
    refine .bind .get fun _ _ hj => ?_
    rw [hj.imports]
    exact .pure (Generated.resembles_of_same hcode _ top _ _)
  rw [hnested]
  cases Stmt.findNestedType? ss' with
  | some found => exact .fail _
  | none => exact hbuild ()

end Rust

end SourceGen
