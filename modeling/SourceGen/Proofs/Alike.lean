import SourceGen.Proofs.Events
import SourceGen.Proofs.Yields

/-!
# Runs that act alike

Whether a generator fails, which imports it requires and which raw blocks it reports as skipped do
not depend on the journal it starts from, but only on the events in its tree and on the types that
are written. So a sequence of generators acts like its parts together, in whatever order they run.

## Main definitions

* `Diagnostic.SkipsRaw`: the report about a raw block for another target.
* `Gen.Acts`: all runs of a generator meet the same events and require the same imports.
* `Gen.Alike`: two generators act in the same way.

## Main results

* `Gen.Acts.bind`, `Gen.Alike.bind`: the rules for sequences.
* `Gen.Acts.needs_iff`: the runs determine which imports are required.
* `Gen.Alike.imports_eq`: generators that act alike leave the same imports.
-/

namespace SourceGen

/-! ### Reports about raw blocks -/

/-- The diagnostic says that a raw block for `name` is skipped. -/
def Diagnostic.SkipsRaw (d : Diagnostic) (name : String) : Prop :=
  d.message = "raw block for `" ++ name ++ "` skipped"

/-- The characters differ at a place where both lists have one. -/
def Text.clash : List Char → List Char → Bool
  | c :: cs, d :: ds => c != d || clash cs ds
  | _, _ => false

/-- Texts that clash differ whatever follows them. -/
theorem Text.append_ne_of_clash {cs ds : List Char} (h : clash cs ds = true) (xs ys : List Char) :
    cs ++ xs ≠ ds ++ ys := by
  induction cs generalizing ds with
  | nil => simp [clash] at h
  | cons c cs ih =>
    cases ds with
    | nil => simp [clash] at h
    | cons d ds =>
      simp only [clash, Bool.or_eq_true, bne_iff_ne] at h
      simp only [List.cons_append, ne_eq, List.cons.injEq, not_and]
      intro hcd
      exact ih (h.resolve_left (by simp [hcd]))

/-- The end of a message tells it apart from the report about a raw block. -/
theorem Diagnostic.not_skipsRaw {d : Diagnostic} {front back : String}
    (h : d.message = front ++ back)
    (hback : Text.clash back.toList.reverse "` skipped".toList.reverse = true) (name : String) :
    ¬ d.SkipsRaw name := by
  intro hskips
  have htexts := congrArg (·.toList.reverse) (h.symm.trans hskips)
  simp only [String.toList_append, List.reverse_append] at htexts
  exact Text.append_ne_of_clash hback _ _ htexts

/-- A diagnostic reports one skipped target. -/
theorem Diagnostic.SkipsRaw.name_eq {d : Diagnostic} {name other : String}
    (h : d.SkipsRaw name) (h' : d.SkipsRaw other) : name = other := by
  have htexts := congrArg String.toList (h.symm.trans h')
  simp only [String.toList_append, List.append_assoc, List.append_cancel_left_eq,
    List.append_cancel_right_eq] at htexts
  exact String.toList_injective htexts

/-- The target skips a raw block for `name` among the events. -/
def TargetName.Skips (target : TargetName) (events : List Event) (name : String) : Prop :=
  target.accepts name = false ∧ ∃ hidden, Event.raw name hidden ∈ events

namespace TargetName

variable {target : TargetName} {events others : List Event} {name : String}

theorem not_skips_nil : ¬ target.Skips [] name := by
  simp [Skips]

/-- A raw block is skipped when its target is another one. -/
theorem skips_raw {other : String} {hidden : Bool} :
    target.Skips [.raw other hidden] name ↔ target.accepts name = false ∧ name = other := by
  simp [Skips]

/-- What is skipped in two parts is skipped in one of them. -/
theorem skips_append :
    target.Skips (events ++ others) name ↔ target.Skips events name ∨ target.Skips others name := by
  simp only [Skips, List.mem_append, exists_or, and_or_left]

/-- Hiding a raw block does not change whether it is skipped. -/
theorem skips_hide : target.Skips (events.map Event.hide) name ↔ target.Skips events name := by
  refine and_congr_right fun _ => ⟨?_, ?_⟩
  · rintro ⟨hidden, hmem⟩
    obtain ⟨event, hevent, heq⟩ := List.mem_map.mp hmem
    cases event with
    | raw other shown =>
      obtain ⟨rfl, -⟩ := Event.raw.inj heq
      exact ⟨shown, hevent⟩
    | refusal => cases heq
  · rintro ⟨hidden, hmem⟩
    exact ⟨true, List.mem_map.mpr ⟨_, hmem, rfl⟩⟩

end TargetName

theorem Event.refusal_mem_hide {events : List Event} :
    Event.refusal ∈ events.map Event.hide ↔ Event.refusal ∈ events := by
  rw [List.mem_map]
  constructor
  · rintro ⟨event, hevent, heq⟩
    cases event with
    | raw target hidden => cases heq
    | refusal => exact hevent
  · exact fun h => ⟨_, h, rfl⟩

/-! ### Journals -/

namespace Journal

/-- A raw block for `name` was reported as skipped. -/
def Skips (j : Journal) (name : String) : Prop :=
  ∃ d ∈ j.diagnostics, d.SkipsRaw name

/-- The imports are sorted, each once. -/
def Sorted (j : Journal) : Prop :=
  j.imports.Pairwise (· < ·)

theorem sorted_empty : ({} : Journal).Sorted :=
  .nil

/-- A name is inserted where it belongs. -/
theorem pairwise_insertSorted {name : String} {names : List String}
    (h : names.Pairwise (· < ·)) : (insertSorted name names).Pairwise (· < ·) := by
  induction names with
  | nil => simp [insertSorted]
  | cons other names ih =>
    obtain ⟨hother, hnames⟩ := List.pairwise_cons.mp h
    rw [insertSorted]
    split
    · rename_i hlt
      refine List.pairwise_cons.mpr ⟨fun x hx => ?_, h⟩
      rcases List.mem_cons.mp hx with rfl | hx
      · exact hlt
      · exact String.lt_trans hlt (hother x hx)
    · rename_i hle
      split
      · exact h
      · rename_i hne
        refine List.pairwise_cons.mpr ⟨fun x hx => ?_, ih hnames⟩
        rcases mem_insertSorted.mp hx with rfl | hx
        · exact Std.lt_of_le_of_ne hle (Ne.symm hne)
        · exact hother x hx

/-- Sorted lists with the same elements are the same. -/
theorem eq_of_pairwise_lt {xs ys : List String} (hxs : xs.Pairwise (· < ·))
    (hys : ys.Pairwise (· < ·)) (h : ∀ x, x ∈ xs ↔ x ∈ ys) : xs = ys := by
  induction xs generalizing ys with
  | nil => exact (List.eq_nil_iff_forall_not_mem.mpr fun y hy => by simpa using (h y).mpr hy).symm
  | cons x xs ih =>
    cases ys with
    | nil => simpa using (h x).mp List.mem_cons_self
    | cons y ys =>
      obtain ⟨hx, hxs⟩ := List.pairwise_cons.mp hxs
      obtain ⟨hy, hys'⟩ := List.pairwise_cons.mp hys
      -- Both heads are the least element.
      have heq : x = y := by
        rcases List.mem_cons.mp ((h x).mp List.mem_cons_self) with heq | hmem
        · exact heq
        · rcases List.mem_cons.mp ((h y).mpr List.mem_cons_self) with heq | hmem'
          · exact heq.symm
          · exact absurd (hy x hmem) (String.lt_asymm (hx y hmem'))
      subst heq
      congr 1
      refine ih hxs hys' fun z => ?_
      constructor
      · intro hz
        rcases List.mem_cons.mp ((h z).mp (List.mem_cons_of_mem x hz)) with rfl | hz'
        · exact absurd (hx z hz) (String.lt_irrefl z)
        · exact hz'
      · intro hz
        rcases List.mem_cons.mp ((h z).mpr (List.mem_cons_of_mem x hz)) with rfl | hz'
        · exact absurd (hy z hz) (String.lt_irrefl z)
        · exact hz'

/-- The second journal has the imports and the skipped raw blocks of the first, and beyond those the
needed imports and the raw blocks among the events. -/
structure Grows (target : TargetName) (events : List Event) (needs : String → Prop)
    (j k : Journal) : Prop where
  sorted : k.Sorted
  mem_imports : ∀ name, name ∈ k.imports ↔ name ∈ j.imports ∨ needs name
  skips : ∀ name, k.Skips name ↔ j.Skips name ∨ target.Skips events name

variable {target : TargetName} {events others : List Event} {needs more : String → Prop}
  {i j k : Journal}

/-- A journal grows into itself with no event. -/
theorem Grows.refl (h : j.Sorted) : j.Grows target [] (fun _ => False) j where
  sorted := h
  mem_imports := by simp
  skips := by simp [TargetName.not_skips_nil]

/-- Growth in two steps is growth over both lists of events. -/
theorem Grows.trans (h : i.Grows target events needs j) (h' : j.Grows target others more k) :
    i.Grows target (events ++ others) (fun name => needs name ∨ more name) k where
  sorted := h'.sorted
  mem_imports name := by rw [h'.mem_imports, h.mem_imports, or_assoc]
  skips name := by rw [h'.skips, h.skips, TargetName.skips_append, or_assoc]

end Journal

namespace Gen

variable {α β γ δ : Type} {x : Gen α} {y : Gen β} {f : α → Gen γ} {g : β → Gen δ}
  {i j k : Journal} {target : TargetName} {events others : List Event}
  {needs more : String → Prop}

/-! ### Failed runs -/

/-- From the journal `j` the generator fails and leaves the journal `k`. -/
def Fails (x : Gen α) (j k : Journal) : Prop :=
  ∃ e, StateT.run (ExceptT.run x) j = (.error e, k)

/-- A sequence fails in its first step or after it. -/
theorem fails_bind :
    (x >>= f).Fails j k ↔ x.Fails j k ∨ ∃ a i, x.Yields j a i ∧ (f a).Fails i k := by
  unfold Fails Yields
  rw [ExceptT.run_bind, StateT.run_bind]
  generalize StateT.run (ExceptT.run x) j = r
  rcases r with ⟨e | a, i⟩
  · constructor
    · rintro ⟨e', h⟩
      cases h
      exact .inl ⟨e, rfl⟩
    · rintro (⟨e', h⟩ | ⟨_, _, h, -⟩)
      · cases h
        exact ⟨e, rfl⟩
      · cases h
  · constructor
    · rintro ⟨e', h⟩
      exact .inr ⟨a, i, rfl, e', h⟩
    · rintro (⟨e', h⟩ | ⟨_, _, h, h'⟩)
      · cases h
      · cases h
        exact h'

theorem fails_fail (e : Failure) : (fail e : Gen α).Fails j j :=
  ⟨e, rfl⟩

/-- A run that fails yields nothing. -/
theorem Fails.not_yields {a : α} (h : x.Fails j k) : ¬ x.Yields j a i := by
  obtain ⟨e, h⟩ := h
  intro hy
  cases h.symm.trans hy

/-! ### What all runs of a generator do -/

/-- Every run of the generator meets the events: it fails exactly if there is a refusal among them,
it reports the raw blocks among them that the target skips, and it requires the needed imports. A
failed run may end before it comes to all of them. -/
def Acts (target : TargetName) (events : List Event) (needs : String → Prop) (x : Gen α) : Prop :=
  ∀ ⦃j : Journal⦄, j.Sorted →
    .refusal ∉ events ∧ (∃ a k, x.Yields j a k ∧ j.Grows target events needs k) ∨
    .refusal ∈ events ∧ ∃ k, x.Fails j k ∧
      ∀ name, k.Skips name → j.Skips name ∨ target.Skips events name

/-- The run from the empty journal requires the import. -/
def Needs (x : Gen α) (name : String) : Prop :=
  ∃ a k, x.Yields {} a k ∧ name ∈ k.imports

namespace Acts

/-- A value costs no event. -/
theorem pure (a : α) : Acts target [] (fun _ => False) (Pure.pure a : Gen α) := by
  intro j hj
  exact .inl ⟨List.not_mem_nil, a, j, yields_pure.mpr ⟨rfl, rfl⟩, .refl hj⟩

/-- A failure is a refusal. -/
theorem fail (e : Failure) : Acts target [.refusal] needs (Gen.fail e : Gen α) := by
  intro j hj
  exact .inr ⟨List.mem_singleton.mpr rfl, j, fails_fail e, fun _ => .inl⟩

/-- A report of anything but a skipped raw block is no event. -/
theorem report {d : Diagnostic} (h : ∀ name, ¬ d.SkipsRaw name) :
    Acts target [] (fun _ => False) (Gen.report d) := by
  intro j hj
  refine .inl ⟨List.not_mem_nil, (), _, yields_report.mpr rfl, hj, by simp, fun name => ?_⟩
  simp [Journal.Skips, or_and_right, exists_or, h, TargetName.not_skips_nil]

/-- An import is needed, and is no event. -/
theorem requireImport (name : String) : Acts target [] (· = name) (Gen.requireImport name) := by
  intro j hj
  refine .inl ⟨List.not_mem_nil, (), _, yields_requireImport.mpr rfl,
    Journal.pairwise_insertSorted hj, fun other => ?_, fun other => ?_⟩
  · rw [Journal.mem_insertSorted, or_comm]
  · simp [Journal.Skips, TargetName.not_skips_nil]

theorem freshLabel : Acts target [] (fun _ => False) Gen.freshLabel := by
  intro j hj
  refine .inl ⟨List.not_mem_nil, _, _, yields_freshLabel.mpr ⟨rfl, rfl⟩, hj, by simp,
    fun name => ?_⟩
  simp [Journal.Skips, TargetName.not_skips_nil]

theorem get : Acts target [] (fun _ => False) (MonadState.get : Gen Journal) := by
  intro j hj
  exact .inl ⟨List.not_mem_nil, j, j, rfl, .refl hj⟩

/-- Runs one after the other meet the events of both and require the imports of both. -/
theorem bind_of_always {P : α → Prop} (hx : Acts target events needs x) (hP : x.Always P)
    (hf : ∀ a, P a → Acts target others more (f a)) :
    Acts target (events ++ others) (fun name => needs name ∨ more name) (x >>= f) := by
  intro j hj
  rw [List.mem_append]
  -- The second step starts from the journal that the first one leaves, which is sorted as well.
  rcases hx hj with ⟨hok, a, i, ha, hi⟩ | ⟨hbad, k, hk, hskips⟩
  · rcases hf a (hP ha) hi.sorted with ⟨hok', b, k, hb, hk⟩ | ⟨hbad', k, hk, hskips⟩
    · refine .inl ⟨by simp [hok, hok'], b, k, ?_, hi.trans hk⟩
      exact yields_bind.mpr ⟨a, i, ha, hb⟩
    · refine .inr ⟨.inr hbad', k, fails_bind.mpr (.inr ⟨a, i, ha, hk⟩), fun name hname => ?_⟩
      rw [TargetName.skips_append, ← or_assoc, ← hi.skips]
      exact hskips name hname
  · refine .inr ⟨.inl hbad, k, fails_bind.mpr (.inl hk), fun name hname => ?_⟩
    rw [TargetName.skips_append, ← or_assoc]
    exact .inl (hskips name hname)

/-- In sequence, events and needs add up. -/
theorem bind (hx : Acts target events needs x) (hf : ∀ a, Acts target others more (f a)) :
    Acts target (events ++ others) (fun name => needs name ∨ more name) (x >>= f) :=
  hx.bind_of_always (fun _ _ _ _ => trivial) fun a (_ : True) => hf a

/-- The events matter only up to what they refuse and skip. -/
theorem congr_of_skips (hx : Acts target events needs x)
    (hrefusal : .refusal ∈ events ↔ .refusal ∈ others)
    (hskips : ∀ name, target.Skips events name ↔ target.Skips others name)
    (hneeds : ∀ name, needs name ↔ more name) : Acts target others more x := by
  intro j hj
  simp only [← hrefusal, ← hskips]
  refine (hx hj).imp (fun h => ⟨h.1, ?_⟩) id
  obtain ⟨-, a, k, ha, hk⟩ := h
  refine ⟨a, k, ha, hk.sorted, fun name => ?_, fun name => ?_⟩
  · rw [hk.mem_imports, hneeds]
  · rw [hk.skips, hskips]

/-- Only which events there are matters, not their order or their number. -/
theorem congr (hx : Acts target events needs x) (h : ∀ event, event ∈ events ↔ event ∈ others)
    (hneeds : ∀ name, needs name ↔ more name) : Acts target others more x :=
  hx.congr_of_skips (h _) (fun _ => by simp only [TargetName.Skips, h]) hneeds

/-- It does not matter whether an event is hidden. -/
theorem hide (hx : Acts target events needs x) : Acts target (events.map Event.hide) needs x :=
  hx.congr_of_skips Event.refusal_mem_hide.symm (fun _ => TargetName.skips_hide.symm) fun _ => .rfl

/-- The last step only puts together what the others yield. -/
theorem map (hx : Acts target events needs x) (f : α → γ) :
    Acts target events needs (x >>= fun a => Pure.pure (f a)) :=
  (hx.bind fun a => pure (f a)).congr (by simp) (by simp)

/-- A run that succeeds meets no refusal. -/
theorem of_yields {a : α} (hx : Acts target events needs x) (hj : j.Sorted)
    (h : x.Yields j a k) : .refusal ∉ events ∧ j.Grows target events needs k := by
  rcases hx hj with ⟨hok, a', k', ha', hk'⟩ | ⟨-, k', hfails, -⟩
  · obtain ⟨-, rfl⟩ := Prod.mk.inj (h.symm.trans ha')
    exact ⟨hok, hk'⟩
  · exact absurd h hfails.not_yields

/-- Where all runs fail, nothing is said about imports. -/
theorem of_refusal (hx : Acts target events needs x) (hbad : .refusal ∈ events) :
    Acts target events more x := by
  intro j hj
  exact .inr ((hx hj).resolve_left fun h => h.1 hbad)

/-- The imports that are required are those of the run from the empty journal. -/
theorem needs_iff (hx : Acts target events needs x) (hok : .refusal ∉ events) (name : String) :
    needs name ↔ x.Needs name := by
  rcases hx Journal.sorted_empty with ⟨-, a, k, ha, hk⟩ | ⟨hbad, -⟩
  · have hmem : name ∈ k.imports ↔ needs name := by simp [hk.mem_imports]
    rw [← hmem]
    constructor
    · exact fun h => ⟨a, k, ha, h⟩
    · rintro ⟨a', k', ha', h⟩
      obtain ⟨-, rfl⟩ := Prod.mk.inj (ha.symm.trans ha')
      exact h
  · exact absurd hbad hok

end Acts

/-! ### Generators that act alike -/

/-- Both generators meet the events, and they require the same imports. -/
def Alike (target : TargetName) (events : List Event) (x : Gen α) (y : Gen β) : Prop :=
  ∃ needs, Acts target events needs x ∧ Acts target events needs y

namespace Alike

theorem pure (a : α) (b : β) : Alike target [] (Pure.pure a : Gen α) (Pure.pure b : Gen β) :=
  ⟨_, .pure a, .pure b⟩

/-- Two failures are alike, whatever they say. -/
theorem fail (e e' : Failure) :
    Alike target [.refusal] (Gen.fail e : Gen α) (Gen.fail e' : Gen β) :=
  ⟨fun _ => False, .fail e, .fail e'⟩

/-- Two reports that skip no raw block are alike. -/
theorem report {d d' : Diagnostic} (h : ∀ name, ¬ d.SkipsRaw name)
    (h' : ∀ name, ¬ d'.SkipsRaw name) : Alike target [] (Gen.report d) (Gen.report d') :=
  ⟨_, .report h, .report h'⟩

/-- A report with another end than the one about a raw block. -/
theorem note {d d' : Diagnostic} {front front' back : String} (h : d.message = front ++ back)
    (h' : d'.message = front' ++ back)
    (hback : Text.clash back.toList.reverse "` skipped".toList.reverse = true) :
    Alike target [] (Gen.report d) (Gen.report d') :=
  report (Diagnostic.not_skipsRaw h hback) (Diagnostic.not_skipsRaw h' hback)

theorem requireImport (name : String) :
    Alike target [] (Gen.requireImport name) (Gen.requireImport name) :=
  ⟨_, .requireImport name, .requireImport name⟩

theorem freshLabel : Alike target [] Gen.freshLabel Gen.freshLabel :=
  ⟨_, .freshLabel, .freshLabel⟩

theorem get : Alike target [] (MonadState.get : Gen Journal) (MonadState.get : Gen Journal) :=
  ⟨_, .get, .get⟩

/-- Two generators alike may be exchanged. -/
theorem symm (hxy : Alike target events x y) : Alike target events y x := by
  obtain ⟨needs, hx, hy⟩ := hxy
  exact ⟨needs, hy, hx⟩

/-- What is known of one generator holds of the other. -/
theorem acts (hxy : Alike target events x y) (hx : Acts target events more x) :
    Acts target events more y := by
  obtain ⟨needs, hx', hy⟩ := hxy
  -- Runs that fail say nothing about imports; those that succeed determine them.
  by_cases hbad : Event.refusal ∈ events
  · exact hy.of_refusal hbad
  · exact hy.congr (fun _ => .rfl) fun name =>
      (hx'.needs_iff hbad name).trans (hx.needs_iff hbad name).symm

/-- Alikeness passes through a third generator. -/
theorem trans {z : Gen γ} (hxy : Alike target events x y) (hyz : Alike target events y z) :
    Alike target events x z := by
  obtain ⟨needs, hy, hz⟩ := hyz
  exact ⟨needs, hxy.symm.acts hy, hz⟩

/-- The second generator requires what the first one does. -/
theorem acts_needs (hxy : Alike target events x y) : Acts target events x.Needs y := by
  obtain ⟨needs, hx, hy⟩ := hxy
  by_cases hbad : Event.refusal ∈ events
  · exact hy.of_refusal hbad
  · exact hy.congr (fun _ => .rfl) (hx.needs_iff hbad)

/-- What the second steps do must not depend on the values of the first ones, but it may depend on
what holds of all these values. -/
theorem bind_of_always {P : α → Prop} {Q : β → Prop} (hxy : Alike target events x y)
    (hP : x.Always P) (hQ : y.Always Q)
    (hfg : ∀ a b, P a → Q b → Alike target others (f a) (g b)) :
    Alike target (events ++ others) (x >>= f) (y >>= g) := by
  obtain ⟨needs, hx, hy⟩ := hxy
  rcases hx Journal.sorted_empty with ⟨hok, a, _, ha, -⟩ | ⟨hbad, -⟩
  · rcases hy Journal.sorted_empty with ⟨-, b, _, hb, -⟩ | ⟨hbad, -⟩
    · -- Whatever the first steps yield, the second ones require what they require here.
      obtain ⟨more, hfa, hgb⟩ := hfg a b (hP ha) (hQ hb)
      have hf : ∀ a', P a' → Acts target others more (f a') :=
        fun a' ha' => (hfg a' b ha' (hQ hb)).symm.acts hgb
      have hg : ∀ b', Q b' → Acts target others more (g b') :=
        fun b' hb' => (hfg a b' (hP ha) hb').acts hfa
      exact ⟨_, hx.bind_of_always hP hf, hy.bind_of_always hQ hg⟩
    · exact absurd hbad hok
  · -- All runs fail in their first steps.
    have hfails : ∀ {ε ζ : Type} {z : Gen ε} {h : ε → Gen ζ}, Acts target events needs z →
        Acts target (events ++ others) (fun _ => False) (z >>= h) := by
      intro ε ζ z h hz j hj
      obtain ⟨-, k, hk, hskips⟩ := (hz hj).resolve_left fun hok => hok.1 hbad
      refine .inr ⟨List.mem_append_left _ hbad, k, fails_bind.mpr (.inl hk), fun name hname => ?_⟩
      rw [TargetName.skips_append, ← or_assoc]
      exact .inl (hskips name hname)
    exact ⟨_, hfails hx, hfails hy⟩

/-- Generators alike in sequence, with the events of both steps. -/
theorem bind (hxy : Alike target events x y) (hfg : ∀ a b, Alike target others (f a) (g b)) :
    Alike target (events ++ others) (x >>= f) (y >>= g) :=
  hxy.bind_of_always (fun _ _ _ _ => trivial) (fun _ _ _ _ => trivial)
    fun a b (_ : True) (_ : True) => hfg a b

/-- The first steps meet no events. -/
theorem after_of_always {P : α → Prop} {Q : β → Prop} (hxy : Alike target [] x y)
    (hP : x.Always P) (hQ : y.Always Q)
    (hfg : ∀ a b, P a → Q b → Alike target events (f a) (g b)) :
    Alike target events (x >>= f) (y >>= g) :=
  hxy.bind_of_always hP hQ hfg

/-- A first step without events adds none. -/
theorem after (hxy : Alike target [] x y) (hfg : ∀ a b, Alike target events (f a) (g b)) :
    Alike target events (x >>= f) (y >>= g) :=
  hxy.bind hfg

/-- Nothing runs behind a failure. -/
theorem failed (e e' : Failure) :
    Alike target (.refusal :: events) (Gen.fail e >>= f) (Gen.fail e' >>= g) :=
  (fail e e').bind_of_always (.fail e) (.fail e') fun _ _ (h : False) (_ : True) => h.elim

/-- Only which events there are matters, not their order or their number. -/
theorem congr (hxy : Alike target events x y) (h : ∀ event, event ∈ events ↔ event ∈ others) :
    Alike target others x y := by
  obtain ⟨needs, hx, hy⟩ := hxy
  exact ⟨needs, hx.congr h fun _ => .rfl, hy.congr h fun _ => .rfl⟩

/-- The last step only puts together what the others yield. -/
theorem map (hxy : Alike target events x y) (f : α → γ) (g : β → δ) :
    Alike target events (x >>= fun a => Pure.pure (f a)) (y >>= fun b => Pure.pure (g b)) :=
  (hxy.bind fun a b => pure (f a) (g b)).congr (by simp)

/-- Two steps meet the events of the second one first. -/
theorem swap (hxy : Alike target events x y) (hfg : ∀ a b, Alike target others (f a) (g b)) :
    Alike target (others ++ events) (x >>= f) (y >>= g) :=
  (hxy.bind hfg).congr fun event => by simp [or_comm]

/-- A list of generators alike, none with an event. -/
theorem mapM {ε ζ : Type} {f : α → Gen ε} {g : α → Gen ζ} {as : List α}
    (h : ∀ a ∈ as, Alike target [] (f a) (g a)) : Alike target [] (as.mapM f) (as.mapM g) := by
  induction as with
  | nil => exact pure [] []
  | cons a as ih =>
    obtain ⟨ha, has⟩ := List.forall_mem_cons.mp h
    rw [List.mapM_cons, List.mapM_cons]
    exact ha.after fun _ _ => (ih has).map _ _

theorem optionMapM {ε ζ : Type} {f : α → Gen ε} {g : α → Gen ζ}
    (h : ∀ a, Alike target [] (f a) (g a)) (o : Option α) :
    Alike target [] (o.mapM f) (o.mapM g) := by
  cases o with
  | none => exact pure none none
  | some a =>
    change Alike target [] (some <$> f a) (some <$> g a)
    rw [← bind_pure_comp, ← bind_pure_comp]
    exact (h a).map _ _

/-- A loop over a list that is never left early. -/
theorem forIn {f : α → PUnit → Gen (ForInStep PUnit)} {as : List α}
    (h : ∀ a ∈ as, Alike target [] (f a ⟨⟩) (f a ⟨⟩))
    (hyield : ∀ a ∈ as, (f a ⟨⟩).Always (· = .yield ⟨⟩)) :
    Alike target [] (ForIn.forIn as ⟨⟩ f) (ForIn.forIn as ⟨⟩ f) := by
  induction as with
  | nil => exact pure _ _
  | cons a as ih =>
    obtain ⟨ha, has⟩ := List.forall_mem_cons.mp h
    obtain ⟨hyielda, hyieldas⟩ := List.forall_mem_cons.mp hyield
    rw [List.forIn_cons]
    refine ha.bind_of_always hyielda hyielda fun step step' hstep hstep' => ?_
    rw [hstep, hstep']
    exact ih has hyieldas

/-- It does not matter whether an event is hidden. -/
theorem hide (hxy : Alike target events x y) : Alike target (events.map Event.hide) x y := by
  obtain ⟨needs, hx, hy⟩ := hxy
  exact ⟨needs, hx.hide, hy.hide⟩

/-- The imports are sorted, so there is only one way to write them. -/
theorem imports_eq {k' : Journal} {a : α} {b : β} (hxy : Alike target events x y) (hj : j.Sorted)
    (hx : x.Yields j a k) (hy : y.Yields j b k') : k.imports = k'.imports := by
  obtain ⟨needs, hactx, hacty⟩ := hxy
  have hk := (hactx.of_yields hj hx).2
  have hk' := (hacty.of_yields hj hy).2
  exact Journal.eq_of_pairwise_lt hk.sorted hk'.sorted fun name => by
    rw [hk.mem_imports, hk'.mem_imports]

end Alike

end Gen

/-! ### What a target leaves out -/

namespace TargetName

variable {target : TargetName}

/-- The report of a skipped declaration is no event. -/
theorem alike_skipMarked (kind name : String) (attributes : List Attribute) :
    Gen.Alike target [] (target.skipMarked kind name attributes)
      (target.skipMarked kind name attributes) := by
  unfold skipMarked
  split
  · exact .after (.note rfl rfl rfl) fun _ _ => .pure true true
  · exact .pure false false

/-- The events of a declaration are those of what is written for it without a marker. -/
theorem alike_unlessMarked {α β : Type} {events : List Event} {kind name : String}
    {attributes : List Attribute} {a : α} {b : β} {x : Gen α} {y : Gen β}
    (h : Marker.of? attributes = none → Gen.Alike target events x y) :
    Gen.Alike target (if (Marker.of? attributes).isSome then [] else events)
      (target.skipMarked kind name attributes >>= fun skipped =>
        if skipped = true then pure a else x)
      (target.skipMarked kind name attributes >>= fun skipped =>
        if skipped = true then pure b else y) := by
  have hskip := target.alike_skipMarked kind name attributes
  have halways := target.always_skipMarked kind name attributes
  split
  · rename_i hmark
    refine hskip.bind_of_always halways halways fun skipped skipped' hs hs' => ?_
    rw [hs, hs', if_pos hmark, if_pos hmark]
    exact .pure a b
  · rename_i hmark
    refine hskip.bind_of_always halways halways fun skipped skipped' hs hs' => ?_
    rw [hs, hs', if_neg hmark, if_neg hmark]
    exact h (by simpa using hmark)

/-- A raw block is the only thing that is reported as a skipped raw block. -/
theorem acts_rawCode (raw : RawBlock) :
    Gen.Acts target raw.events (fun _ => False) (target.rawCode raw) := by
  obtain ⟨name, code⟩ := raw
  cases name with
  | none => exact .pure _
  | some name =>
    intro j hj
    refine .inl ⟨by simp [RawBlock.events], ?_⟩
    simp only [rawCode, RawBlock.events]
    split
    · rename_i haccepts
      refine ⟨_, j, Gen.yields_pure.mpr ⟨rfl, rfl⟩, hj, by simp, fun other => ?_⟩
      simp only [skips_raw, iff_self_or]
      rintro ⟨hrefuses, rfl⟩
      rw [haccepts] at hrefuses
      cases hrefuses
    · rename_i hrefuses
      refine ⟨_, _, Gen.yields_bind.mpr ⟨(), _, Gen.yields_report.mpr rfl,
        Gen.yields_pure.mpr ⟨rfl, rfl⟩⟩, hj, by simp, fun other => ?_⟩
      have hother : Diagnostic.SkipsRaw ((Diagnostic.info ("raw block for `" ++ name ++
          "` skipped")).withContext target.id) other ↔ other = name :=
        ⟨fun h => h.name_eq rfl, fun h => h ▸ rfl⟩
      simp only [Journal.Skips, List.mem_append, List.mem_singleton, or_and_right, exists_or,
        exists_eq_left, hother, skips_raw]
      refine or_congr_right (iff_and_self.mpr ?_)
      rintro rfl
      simpa using hrefuses

/-- A raw block is alike to itself, with its own event. -/
theorem alike_rawCode (raw : RawBlock) :
    Gen.Alike target raw.events (target.rawCode raw) (target.rawCode raw) :=
  ⟨_, acts_rawCode raw, acts_rawCode raw⟩

theorem acts_rawCodes (raws : List RawBlock) :
    Gen.Acts target (raws.flatMap RawBlock.events) (fun _ => False) (target.rawCodes raws) := by
  induction raws with
  | nil => exact .pure _
  | cons raw raws ih =>
    rw [List.flatMap_cons]
    exact (Gen.Acts.bind (acts_rawCode raw) fun _ => ih.map _).congr (by simp) (by simp)

theorem alike_separatedRawCodes (raws : List RawBlock) :
    Gen.Alike target (raws.flatMap RawBlock.events) (target.separatedRawCodes raws)
      (target.separatedRawCodes raws) := by
  induction raws with
  | nil => exact .pure _ _
  | cons raw raws ih =>
    rw [List.flatMap_cons]
    exact .bind (alike_rawCode raw) fun _ _ => ih.map _ _

/-- A declaration in a body is refused alike in every scope. -/
theorem alike_refuseInBody (scope scope' : Scope) (s : Stmt) :
    Gen.Alike target [] (target.refuseInBody scope s) (target.refuseInBody scope' s) := by
  have hback : ∀ context name, ¬ ((Diagnostic.warning (s.kindName ++
      " is not allowed inside a function body; skipped")).withContext context).SkipsRaw name :=
    fun _ => Diagnostic.not_skipsRaw rfl rfl
  exact .after (.report (hback _) (hback _)) fun _ _ => .pure [] []

end TargetName

end SourceGen
