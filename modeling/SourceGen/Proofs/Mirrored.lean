import SourceGen.Proofs.Yields

/-!
# Runs that mirror each other

What a generator writes does not depend on what was reported before. So two runs can be compared
although their journals report different things: whenever the first one succeeds the second one
succeeds as well, with a related value, and both require the same imports and use the same labels.

## Main definitions

* `Journal.Agrees`: journals that differ at most in their reports.
* `Gen.Mirrored`: every successful run of a generator is mirrored by a run of another one.
* `Gen.Blind`: a generator that mirrors itself.
* `Gen.Idle`: no successful run leaves more than reports.

## Main results

* `Gen.Mirrored.bind`, `Gen.Mirrored.map`, `Gen.Mirrored.same`: the rules for sequences.
* `Gen.Mirrored.idle`: a step that leaves no more than reports needs no counterpart.
-/

namespace SourceGen

/-- The journals record the same imports and labels. -/
structure Journal.Agrees (j k : Journal) : Prop where
  imports : j.imports = k.imports
  labels : j.labels = k.labels

namespace Journal.Agrees

variable {i j k : Journal}

/-- A journal agrees with itself. -/
theorem refl (j : Journal) : j.Agrees j :=
  ⟨rfl, rfl⟩

theorem symm (h : j.Agrees k) : k.Agrees j :=
  ⟨h.imports.symm, h.labels.symm⟩

/-- Agreement passes through a third journal. -/
theorem trans (h : i.Agrees j) (h' : j.Agrees k) : i.Agrees k :=
  ⟨h.imports.trans h'.imports, h.labels.trans h'.labels⟩

end Journal.Agrees

namespace Gen

variable {α β γ δ : Type} {x : Gen α} {y : Gen β} {f : α → Gen γ} {g : β → Gen δ}
  {R : α → β → Prop} {S : γ → δ → Prop} {P : α → Prop} {a : α} {b : β}

/-- Every successful run of `x` is mirrored by a run of `y` from any journal that agrees. -/
def Mirrored (R : α → β → Prop) (x : Gen α) (y : Gen β) : Prop :=
  ∀ ⦃j j' a k⦄, j.Agrees j' → x.Yields j a k →
    ∃ b k', y.Yields j' b k' ∧ k.Agrees k' ∧ R a b

/-- The generator does not look at what was reported before. -/
abbrev Blind (x : Gen α) : Prop :=
  Mirrored Eq x x

/-- Every successful run of `x` yields a value with `P` and adds nothing but reports. -/
def Idle (P : α → Prop) (x : Gen α) : Prop :=
  ∀ ⦃j a k⦄, x.Yields j a k → k.Agrees j ∧ P a

namespace Idle

theorem pure (h : P a) : Idle P (Pure.pure a) := by
  intro j b k hy
  obtain ⟨rfl, rfl⟩ := yields_pure.mp hy
  exact ⟨.refl _, h⟩

theorem report (d : Diagnostic) : Idle (fun _ => True) (Gen.report d) := by
  intro j u k hy
  rw [← yields_report.mp hy]
  exact ⟨⟨rfl, rfl⟩, trivial⟩

theorem fail (e : Failure) : Idle P (Gen.fail e) :=
  fun _ _ _ hy => absurd hy not_yields_fail

/-- Idle steps in sequence are idle. -/
theorem bind {Q : γ → Prop} (hx : Idle P x) (hf : ∀ a, P a → Idle Q (f a)) :
    Idle Q (x >>= f) := by
  intro j c k hy
  obtain ⟨a, i, ha, hc⟩ := yields_bind.mp hy
  obtain ⟨hi, hP⟩ := hx ha
  obtain ⟨hk, hQ⟩ := hf a hP hc
  exact ⟨hk.trans hi, hQ⟩

/-- The last step only puts together what the others yield. -/
theorem map {Q : γ → Prop} {f : α → γ} (hx : Idle P x) (h : ∀ a, P a → Q (f a)) :
    Idle Q (x >>= fun a => Pure.pure (f a)) :=
  hx.bind fun a ha => pure (h a ha)

theorem mono {P' : α → Prop} (hx : Idle P x) (h : ∀ a, P a → P' a) : Idle P' x := by
  intro j a k hy
  obtain ⟨hk, ha⟩ := hx hy
  exact ⟨hk, h a ha⟩

end Idle

namespace Mirrored

theorem pure (h : R a b) : Mirrored R (Pure.pure a) (Pure.pure b) := by
  intro j j' c k hj hy
  obtain ⟨rfl, rfl⟩ := yields_pure.mp hy
  exact ⟨b, j', yields_pure.mpr ⟨rfl, rfl⟩, hj, h⟩

/-- A failure has nothing to mirror. -/
theorem fail (e : Failure) : Mirrored R (Gen.fail e) y :=
  fun _ _ _ _ _ hy => absurd hy not_yields_fail

theorem report (d d' : Diagnostic) : Mirrored Eq (Gen.report d) (Gen.report d') := by
  intro j j' u k hj hy
  rw [← yields_report.mp hy]
  exact ⟨(), _, yields_report.mpr rfl, ⟨hj.imports, hj.labels⟩, rfl⟩

theorem requireImport (name : String) : Blind (Gen.requireImport name) := by
  intro j j' u k hj hy
  rw [← yields_requireImport.mp hy]
  refine ⟨(), _, yields_requireImport.mpr rfl, ⟨?_, hj.labels⟩, rfl⟩
  rw [hj.imports]

/-- Journals that agree give the same label. -/
theorem freshLabel : Blind Gen.freshLabel := by
  intro j j' n k hj hy
  obtain ⟨rfl, rfl⟩ := yields_freshLabel.mp hy
  refine ⟨_, _, yields_freshLabel.mpr ⟨rfl, rfl⟩, ⟨hj.imports, ?_⟩, hj.labels⟩
  rw [hj.labels]

theorem get : Mirrored Journal.Agrees (MonadState.get : Gen Journal) MonadState.get := by
  intro j j' i k hj hy
  change (Except.ok j, j) = (Except.ok i, k) at hy
  obtain ⟨hi, rfl⟩ := Prod.mk.inj hy
  obtain rfl := Except.ok.inj hi
  exact ⟨j', j', rfl, hj, hj⟩

/-- Mirrored steps in sequence are mirrored, whatever relates the values between them. -/
theorem bind (hxy : Mirrored R x y) (hfg : ∀ a b, R a b → Mirrored S (f a) (g b)) :
    Mirrored S (x >>= f) (y >>= g) := by
  intro j j' c k hj hy
  obtain ⟨a, i, ha, hc⟩ := yields_bind.mp hy
  obtain ⟨b, i', hb, hi, hab⟩ := hxy hj ha
  obtain ⟨d, k', hd, hk, hcd⟩ := hfg a b hab hi hc
  exact ⟨d, k', yields_bind.mpr ⟨b, i', hb, hd⟩, hk, hcd⟩

/-- The first steps yield the same value. -/
theorem same {x y : Gen α} {g : α → Gen δ} (hxy : Mirrored Eq x y)
    (hfg : ∀ a, Mirrored S (f a) (g a)) : Mirrored S (x >>= f) (y >>= g) :=
  hxy.bind fun a _ h => h ▸ hfg a

/-- The last step only puts together what the others yield. -/
theorem map {f : α → γ} {g : β → δ} (hxy : Mirrored R x y) (h : ∀ a b, R a b → S (f a) (g b)) :
    Mirrored S (x >>= fun a => Pure.pure (f a)) (y >>= fun b => Pure.pure (g b)) :=
  hxy.bind fun a b hab => pure (h a b hab)

/-- A pure step behind equal values keeps them equal. -/
theorem mapEq {x y : Gen α} (hxy : Mirrored Eq x y) (f : α → γ) :
    Mirrored Eq (x >>= fun a => Pure.pure (f a)) (y >>= fun a => Pure.pure (f a)) :=
  hxy.same fun _ => pure rfl

theorem mono {R' : α → β → Prop} (hxy : Mirrored R x y) (h : ∀ a b, R a b → R' a b) :
    Mirrored R' x y := by
  intro j j' a k hj hy
  obtain ⟨b, k', hb, hk, hab⟩ := hxy hj hy
  exact ⟨b, k', hb, hk, h a b hab⟩

/-- What always holds of the values may be used as well. -/
theorem always {Q : β → Prop} (hxy : Mirrored R x y) (hx : x.Always P) (hy : y.Always Q) :
    Mirrored (fun a b => R a b ∧ P a ∧ Q b) x y := by
  intro j j' a k hj ha
  obtain ⟨b, k', hb, hk, hab⟩ := hxy hj ha
  exact ⟨b, k', hb, hk, hab, hx ha, hy hb⟩

/-- A first step that adds nothing but reports needs no counterpart. -/
theorem idle {S : γ → β → Prop} (hx : Idle P x) (hf : ∀ a, P a → Mirrored S (f a) y) :
    Mirrored S (x >>= f) y := by
  intro j j' c k hj hy
  obtain ⟨a, i, ha, hc⟩ := yields_bind.mp hy
  obtain ⟨hi, hP⟩ := hx ha
  exact hf a hP (hi.trans hj) hc

/-- Only the first generator has a last step that puts its values together. -/
theorem mapLeft {S : γ → β → Prop} {f : α → γ} (hxy : Mirrored R x y)
    (h : ∀ a b, R a b → S (f a) b) : Mirrored S (x >>= fun a => Pure.pure (f a)) y := by
  intro j j' c k hj hy
  obtain ⟨a, i, ha, hc⟩ := yields_bind.mp hy
  obtain ⟨rfl, rfl⟩ := yields_pure.mp hc
  obtain ⟨b, k', hb, hk, hab⟩ := hxy hj ha
  exact ⟨b, k', hb, hk, h a b hab⟩

/-- What is mirrored by doing nothing adds nothing but reports. -/
theorem idle_of_pure (hxy : Mirrored R x (Pure.pure b)) : Idle (fun a => R a b) x := by
  intro j a k hy
  obtain ⟨b', k', hb, hk, hab⟩ := hxy (.refl j) hy
  obtain ⟨rfl, rfl⟩ := yields_pure.mp hb
  exact ⟨hk, hab⟩

/-- A list of blind steps is blind. -/
theorem mapM {f : α → Gen γ} (h : ∀ a, Blind (f a)) (as : List α) : Blind (as.mapM f) := by
  induction as with
  | nil => exact pure rfl
  | cons a as ih =>
    rw [List.mapM_cons]
    exact (h a).same fun _ => ih.mapEq _

theorem optionMapM {f : α → Gen γ} (h : ∀ a, Blind (f a)) (o : Option α) :
    Blind (o.mapM f) := by
  cases o with
  | none => exact pure rfl
  | some a =>
    change Blind (some <$> f a)
    rw [← bind_pure_comp]
    exact (h a).mapEq _

theorem forIn {f : α → PUnit → Gen (ForInStep PUnit)}
    (h : ∀ a, Blind (f a ⟨⟩)) (as : List α) : Blind (ForIn.forIn as ⟨⟩ f) := by
  induction as with
  | nil => exact pure rfl
  | cons a as ih =>
    rw [List.forIn_cons]
    refine (h a).same fun step => ?_
    cases step with
    | done => exact pure rfl
    | yield => exact ih

end Mirrored

end Gen

/-! ### What is left out -/

namespace TargetName

variable {target : TargetName}

/-- Declarations with the same marker are skipped alike. -/
theorem mirrored_skipMarked {kind name kind' name' : String}
    {attributes attributes' : List Attribute}
    (hmarker : Marker.of? attributes = Marker.of? attributes') :
    Gen.Mirrored Eq (target.skipMarked kind name attributes)
      (target.skipMarked kind' name' attributes') := by
  unfold skipMarked
  rw [hmarker]
  split
  · exact .same (.report _ _) fun _ => .pure rfl
  · exact .pure rfl

/-- A marked declaration is skipped with a report. -/
theorem idle_skipMarked {kind name : String} {attributes : List Attribute}
    (hmarker : (Marker.of? attributes).isSome = true) :
    Gen.Idle (· = true) (target.skipMarked kind name attributes) := by
  obtain ⟨marker, hmarker⟩ := Option.isSome_iff_exists.mp hmarker
  unfold skipMarked
  rw [hmarker]
  exact .map (.report _) fun _ _ => rfl

/-- What is written in place of a declaration without a marker. -/
theorem mirrored_unlessMarked {α β : Type} {R : α → β → Prop} {kind name kind' name' : String}
    {attributes attributes' : List Attribute} {a : α} {b : β} {x : Gen α} {y : Gen β}
    (hmarker : Marker.of? attributes = Marker.of? attributes') (hab : R a b)
    (hxy : Gen.Mirrored R x y) :
    Gen.Mirrored R
      (target.skipMarked kind name attributes >>= fun skipped =>
        if skipped = true then pure a else x)
      (target.skipMarked kind' name' attributes' >>= fun skipped =>
        if skipped = true then pure b else y) := by
  refine (mirrored_skipMarked hmarker).same fun skipped => ?_
  split
  · exact .pure hab
  · exact hxy

/-- What is written in place of a marked declaration. -/
theorem idle_unlessMarked {α : Type} {P : α → Prop} {kind name : String}
    {attributes : List Attribute} {a : α} {x : Gen α}
    (hmarker : (Marker.of? attributes).isSome = true) (ha : P a) :
    Gen.Idle P (target.skipMarked kind name attributes >>= fun skipped =>
      if skipped = true then pure a else x) := by
  refine (idle_skipMarked hmarker).bind fun skipped hskipped => ?_
  rw [if_pos hskipped]
  exact .pure ha

/-- A raw block is written or skipped without looking at declarations. -/
theorem blind_rawCode (raw : RawBlock) : Gen.Blind (target.rawCode raw) := by
  unfold rawCode
  split
  · split
    · exact .pure rfl
    · exact .same (.report _ _) fun _ => .pure rfl
  · exact .pure rfl

theorem blind_rawCodes (raws : List RawBlock) : Gen.Blind (target.rawCodes raws) := by
  induction raws with
  | nil => exact .pure rfl
  | cons raw raws ih =>
    exact .same (blind_rawCode raw) fun _ => ih.mapEq _

theorem blind_separatedRawCodes (raws : List RawBlock) :
    Gen.Blind (target.separatedRawCodes raws) := by
  induction raws with
  | nil => exact .pure rfl
  | cons raw raws ih =>
    exact .same (blind_rawCode raw) fun _ => ih.mapEq _

/-- A declaration in a body writes nothing. -/
theorem idle_refuseInBody (scope : Scope) (s : Stmt) :
    Gen.Idle (· = []) (target.refuseInBody scope s) :=
  .map (.report _) fun _ _ => rfl

end TargetName

end SourceGen
