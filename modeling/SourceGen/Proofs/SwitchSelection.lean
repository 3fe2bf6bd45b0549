import SourceGen.CSharp.Body
import SourceGen.Proofs.LiteralText
import SourceGen.Proofs.Yields
import SourceGen.Rust.Body
import Mathlib.Data.List.Forall2

/-!
# The case that a switch selects

A switch becomes a `match` in Rust, which runs the first arm that selects the value, and a `switch`
in C#, which goes to the label with the value and to `default` only if there is none. Both are
written with the cases in the order of the source. A default case therefore hides the cases behind
it in Rust and does not in C#.

## Main definitions

* `Rust.selectedCase`, `CSharp.selectedCase`: the number of the case that written code selects.
* `SwitchCase.behindDefault`: the cases behind the first default case.

## Main results

* `Rust.selectedCase_of_yields`, `CSharp.selectedCase_of_yields`: what either target selects.
* `selectedCase_eq_iff`: when both select the same case.
-/

namespace SourceGen

variable {V : Type} [DecidableEq V] {value : Literal → V} {v : V} {cases : List SwitchCase}

/-- Expressions that are rendered one after the other, where a literal is its own text. -/
theorem literals_of_yields (one : Expr → Gen Fragment) (shown : Literal → String)
    {all : List Expr → Gen (List Fragment)} (hnil : all [] = pure [])
    (hcons : ∀ e es, all (e :: es) =
      one e >>= fun f => all es >>= fun fs => pure (f :: fs))
    (hone : ∀ l, one (.literal l) = pure (Fragment.text (shown l)))
    {ls : List Literal} {fs : List Fragment} {i k : Journal}
    (h : (all (ls.map .literal)).Yields i fs k) :
    fs = ls.map fun l => Fragment.text (shown l) := by
  induction ls generalizing i fs k with
  | nil =>
    rw [List.map_nil, hnil] at h
    obtain ⟨rfl, -⟩ := Gen.yields_pure.mp h
    rfl
  | cons l ls ih =>
    rw [List.map_cons, hcons, hone, pure_bind] at h
    obtain ⟨fs, _, hfs, h⟩ := Gen.yields_bind.mp h
    obtain ⟨rfl, -⟩ := Gen.yields_pure.mp h
    rw [ih hfs, List.map_cons]

/-! ### The cases of a switch -/

/-- The literal that the expression is. -/
def Expr.literal? : Expr → Option Literal
  | .literal l => some l
  | _ => none

namespace Pattern

/-- The literals among the values of the pattern. -/
def literals : Pattern → List Literal
  | .default => []
  | .values es => es.filterMap Expr.literal?

/-- The values of the pattern are literals. -/
def IsLiteral : Pattern → Prop
  | .default => True
  | .values es => ∃ ls : List Literal, es = ls.map .literal ∧ ∀ l ∈ ls, l.IsProper

/-- One of the literals has the value `v`. -/
def lists (value : Literal → V) (v : V) (p : Pattern) : Bool :=
  p.literals.any (value · == v)

@[simp] theorem literals_values_map (ls : List Literal) :
    (values (ls.map .literal)).literals = ls := by
  simp [literals, List.filterMap_map, Function.comp_def, Expr.literal?]

theorem lists_iff {p : Pattern} : p.lists value v = true ↔ v ∈ p.literals.map value := by
  simp [lists]

end Pattern

namespace SwitchCase

/-- The case is the default, or one of its literals has the value `v`. -/
def selects (value : Literal → V) (v : V) (c : SwitchCase) : Bool :=
  c.pattern.isDefault || c.pattern.lists value v

/-- The cases behind the first default case. -/
def behindDefault : List SwitchCase → List SwitchCase
  | [] => []
  | c :: cases => if c.pattern.isDefault then cases else behindDefault cases

theorem behindDefault_subset : behindDefault cases ⊆ cases := by
  induction cases with
  | nil => exact List.Subset.refl []
  | cons c cases ih =>
    rw [behindDefault]
    split
    · exact List.subset_cons_self c cases
    · exact List.subset_cons_of_subset c ih

theorem not_lists_of_isDefault {c : SwitchCase} (h : c.pattern.isDefault = true) :
    c.pattern.lists value v = false := by
  obtain ⟨_ | _, _⟩ := c
  · rfl
  · cases h

/-- With distinct values, no case behind one that lists `v` lists it again. -/
theorem not_lists_of_nodup {c d : SwitchCase}
    (h : (((c :: cases).flatMap (·.pattern.literals)).map value).Nodup)
    (hc : c.pattern.lists value v = true) (hd : d ∈ cases) : d.pattern.lists value v = false := by
  rw [List.flatMap_cons, List.map_append, List.nodup_append] at h
  rw [Bool.eq_false_iff]
  intro hlists
  obtain ⟨l, hl, hv⟩ := List.mem_map.mp (Pattern.lists_iff.mp hlists)
  have hmem : v ∈ (cases.flatMap (·.pattern.literals)).map value :=
    List.mem_map.mpr ⟨l, List.mem_flatMap.mpr ⟨d, hd, hl⟩, hv⟩
  exact h.2.2 v (Pattern.lists_iff.mp hc) v hmem rfl

omit [DecidableEq V] in
theorem nodup_tail {c : SwitchCase}
    (h : (((c :: cases).flatMap (·.pattern.literals)).map value).Nodup) :
    ((cases.flatMap (·.pattern.literals)).map value).Nodup := by
  rw [List.flatMap_cons, List.map_append, List.nodup_append] at h
  exact h.2.1

/-- The first case that selects the value is the one that lists it, or else the default, exactly if
none behind the default lists it. -/
theorem findIdx?_selects_iff (h : ((cases.flatMap (·.pattern.literals)).map value).Nodup) :
    cases.findIdx? (selects value v) =
        (cases.findIdx? (·.pattern.lists value v)).or (cases.findIdx? (·.pattern.isDefault)) ↔
      ∀ c ∈ behindDefault cases, c.pattern.lists value v = false := by
  induction cases with
  | nil => simp [behindDefault]
  | cons c cases ih =>
    rw [List.findIdx?_cons, List.findIdx?_cons, List.findIdx?_cons, behindDefault, selects]
    by_cases hdefault : c.pattern.isDefault = true
    -- The default hides all cases behind it, so none of them may list the value.
    · simp only [hdefault, not_lists_of_isDefault hdefault, Bool.true_or, Bool.false_eq_true,
        if_true, if_false]
      rw [← List.findIdx?_eq_none_iff (p := fun c : SwitchCase => c.pattern.lists value v)]
      generalize cases.findIdx? (·.pattern.lists value v) = found
      cases found <;> simp
    · rw [Bool.not_eq_true] at hdefault
      rw [hdefault, Bool.false_or]
      by_cases hlists : c.pattern.lists value v = true
      -- The value is found in front of the default and, being distinct, nowhere else.
      · rw [hlists]
        refine iff_of_true (by simp) fun d hd => ?_
        exact not_lists_of_nodup h hlists (behindDefault_subset hd)
      · rw [Bool.not_eq_true] at hlists
        rw [hlists]
        simp only [Bool.false_eq_true, if_false, ← Option.map_or]
        rw [← ih (nodup_tail h)]
        exact Option.map_inj_right fun _ _ => Nat.succ.inj

end SwitchCase

/-! ### Arms of a match -/

namespace Rust

open Fragment (text)

variable {env : Env} {place : Place} {subject : Expr} {i k : Journal} {code arms : List Code}

/-- The alternatives of a pattern, in front of its arrow. -/
def alternatives : Fragment → List String
  | [.text token, .text " =>"] => [token]
  | .text token :: .text " | " :: rest => token :: alternatives rest
  | _ => []

/-- The alternative is the wildcard, or a literal with the value `v`. -/
def selects (value : Literal → V) (v : V) (token : String) : Bool :=
  token == "_" || (Literal.read? "None" token).any (value · == v)

/-- The number of the first arm that selects `v`; the arm that was added for everything else runs no
case. Without an outer value there is no such arm. -/
def selectedArm (value : Literal → V) (v : V) : List Code → Option (Option Nat)
  | .block .plain header _ _ :: arms =>
    if (alternatives header).any (selects value v) then some (some 0)
    else (selectedArm value v arms).map (Option.map (· + 1))
  | .line [.text "_ => \x7b\x7d"] :: _ => some none
  | _ => none

/-- The number of the case that a match runs for `v`. -/
def selectedCase (value : Literal → V) (v : V) : List Code → Option (Option Nat)
  | [.block .switch _ arms _] => selectedArm value v arms
  | _ => none

/-- The arm that is written for a case. -/
def IsArmOf (env : Env) (place : Place) (c : SwitchCase) (arm : Code) : Prop :=
  ∃ selector body, (∃ j k, (armPattern env place c.pattern).Yields j selector k) ∧
    (∃ j k, (stmts env place c.body).Yields j body k) ∧
    arm = .block .plain (selector ++ text " =>") body ""

/-- There is one arm for each case, in their order. -/
theorem arms_of_yields (h : (switchCases env place cases).Yields i arms k) :
    List.Forall₂ (IsArmOf env place) cases arms := by
  induction cases generalizing i arms k with
  | nil =>
    obtain ⟨rfl, -⟩ := Gen.yields_pure.mp (by simpa only [switchCases] using h)
    exact .nil
  | cons c cases ih =>
    obtain ⟨pattern, block⟩ := c
    rw [switchCases] at h
    obtain ⟨selector, _, hselector, h⟩ := Gen.yields_bind.mp h
    obtain ⟨body, _, hbody, h⟩ := Gen.yields_bind.mp h
    obtain ⟨arms, _, harms, h⟩ := Gen.yields_bind.mp h
    obtain ⟨rfl, -⟩ := Gen.yields_pure.mp h
    exact .cons ⟨selector, body, ⟨_, _, hselector⟩, ⟨_, _, hbody⟩, rfl⟩ (ih harms)

theorem alternatives_join (tokens : List String) :
    alternatives (Fragment.join " | " (tokens.map text) ++ text " =>") = tokens := by
  induction tokens with
  | nil => rfl
  | cons token tokens ih =>
    cases tokens with
    | nil => simp [Fragment.join, text, alternatives]
    | cons token' tokens =>
      rw [List.map_cons, Fragment.join, List.append_assoc, List.append_assoc]
      · change token :: alternatives (Fragment.join " | " _ ++ text " =>") = _
        rw [ih]
      · simp

/-- A written literal selects its own value only. -/
theorem selects_literal {l : Literal} (h : l.IsProper) :
    selects value v (literal l) = (value l == v) := by
  have hread := read?_literal h
  -- The wildcard is no literal, so no literal is written like it.
  have hwildcard : literal l ≠ "_" := by
    intro hl
    rw [hl] at hread
    exact absurd hread (by simp [Literal.read?, Literal.startsNumber])
  simp [selects, hread, hwildcard]

/-- An arm selects what its case selects. -/
theorem any_selects_of_yields {c : SwitchCase} {selector : Fragment} (hc : c.pattern.IsLiteral)
    (h : (armPattern env place c.pattern).Yields i selector k) :
    (alternatives (selector ++ text " =>")).any (selects value v) = c.selects value v := by
  obtain ⟨pattern, block⟩ := c
  cases pattern with
  | default =>
    rw [armPattern] at h
    obtain ⟨rfl, -⟩ := Gen.yields_pure.mp h
    rfl
  | values es =>
    obtain ⟨ls, rfl, hproper⟩ := hc
    rw [armPattern] at h
    obtain ⟨fs, _, hfs, h⟩ := Gen.yields_bind.mp h
    obtain ⟨rfl, -⟩ := Gen.yields_pure.mp h
    have hliterals := literals_of_yields (expr env place .value) literal rfl (fun _ _ => rfl)
      (fun _ => rfl) hfs
    have htokens : fs = (ls.map literal).map text := by
      rw [hliterals, List.map_map]
      rfl
    rw [htokens, alternatives_join, List.any_map, SwitchCase.selects, Pattern.isDefault,
      Bool.false_or, Pattern.lists, Pattern.literals_values_map]
    rw [Bool.eq_iff_iff, List.any_eq_true, List.any_eq_true]
    refine exists_congr fun l => and_congr_right fun hl => ?_
    rw [Function.comp_apply, selects_literal (hproper l hl)]

/-- The arms select the first case that selects the value, if there is a default or an arm for
everything else. -/
theorem selectedArm_append {rest : List Code} (h : List.Forall₂ (IsArmOf env place) cases arms)
    (hliteral : ∀ c ∈ cases, c.pattern.IsLiteral)
    (hrest : cases.any (·.pattern.isDefault) = true ∨ rest = [Code.text "_ => \x7b\x7d"]) :
    selectedArm value v (arms ++ rest) = some (cases.findIdx? (SwitchCase.selects value v)) := by
  induction h with
  | nil =>
    obtain hdefault | rfl := hrest
    · cases hdefault
    · rfl
  | @cons c _ cases arms harm _ ih =>
    obtain ⟨selector, body, ⟨_, _, hselector⟩, -, rfl⟩ := harm
    rw [List.cons_append, selectedArm, List.findIdx?_cons,
      any_selects_of_yields (hliteral c List.mem_cons_self) hselector]
    cases hselects : c.selects value v with
    | true => rfl
    | false =>
      -- The case is no default, so if there is one it is among the rest.
      have hdefault : c.pattern.isDefault = false := (Bool.or_eq_false_iff.mp hselects).1
      rw [List.any_cons, hdefault, Bool.false_or] at hrest
      rw [if_neg (by simp), if_neg (by simp),
        ih (fun d hd => hliteral d (List.mem_cons_of_mem c hd)) hrest]
      rfl

/-- A match runs the first case that is the default or lists the value. -/
theorem selectedCase_of_yields (hliteral : ∀ c ∈ cases, c.pattern.IsLiteral)
    (h : (stmt env place (.switchOn subject cases)).Yields i code k) :
    selectedCase value v code = some (cases.findIdx? (SwitchCase.selects value v)) := by
  rw [stmt] at h
  obtain ⟨shown, _, -, h⟩ := Gen.yields_bind.mp h
  obtain ⟨arms, _, harms, h⟩ := Gen.yields_bind.mp h
  obtain ⟨rfl, -⟩ := Gen.yields_pure.mp h
  refine selectedArm_append (arms_of_yields harms) hliteral ?_
  cases hdefault : Pattern.anyDefault (cases.map (·.pattern)) with
  | true => exact .inl (by simpa [Pattern.anyDefault] using hdefault)
  | false => exact .inr rfl

end Rust

/-! ### Labels of a switch -/

namespace CSharp

open Fragment (text)

variable {env : Env} {scope : Scope} {loop : Option LoopFrame} {subject : Expr} {i k : Journal}
  {code : List Code}

/-- The line is a case label with the value `v`. -/
def isLabelOf (value : Literal → V) (v : V) : Code → Bool
  | .line [.text "case ", .text token, .text ":"] =>
    (Literal.read? "null" token).any (value · == v)
  | _ => false

/-- The line is the default label. -/
def isDefaultLabel : Code → Bool
  | .line [.text "default:"] => true
  | _ => false

/-- The number of the first section with a label that satisfies `p`; the code of a section stands
behind its labels. -/
def labelledSection (p : Code → Bool) : List Code → Option Nat
  | [] => none
  | .indented _ :: code => (labelledSection p code).map (· + 1)
  | label :: code => if p label then some 0 else labelledSection p code

/-- The number of the case that a switch runs for `v`: the one with its label, wherever `default`
stands, and else the default. -/
def selectedCase (value : Literal → V) (v : V) : List Code → Option Nat
  | [.block .switch _ code _] =>
    (labelledSection (isLabelOf value v) code).or (labelledSection isDefaultLabel code)
  | _ => none

/-- The section that is written for a case. -/
def IsSectionOf (env : Env) (scope : Scope) (loop : Option LoopFrame) (c : SwitchCase)
    (code : List Code) : Prop :=
  ∃ labels body, (∃ j k, (caseLabels env scope c.pattern).Yields j labels k) ∧
    (∃ j k, (stmts env scope loop c.body).Yields j body k) ∧
    code = labels ++ [.indented (caseBlock c.body body)]

/-- There is one section for each case, in their order. -/
theorem sections_of_yields (h : (switchCases env scope loop cases).Yields i code k) :
    ∃ sections, code = sections.flatten ∧
      List.Forall₂ (IsSectionOf env scope loop) cases sections := by
  induction cases generalizing i code k with
  | nil =>
    obtain ⟨rfl, -⟩ := Gen.yields_pure.mp (by simpa only [switchCases] using h)
    exact ⟨[], rfl, .nil⟩
  | cons c cases ih =>
    obtain ⟨pattern, block⟩ := c
    rw [switchCases] at h
    obtain ⟨labels, _, hlabels, h⟩ := Gen.yields_bind.mp h
    obtain ⟨body, _, hbody, h⟩ := Gen.yields_bind.mp h
    obtain ⟨code, _, hcode, h⟩ := Gen.yields_bind.mp h
    obtain ⟨rfl, -⟩ := Gen.yields_pure.mp h
    obtain ⟨sections, rfl, hsections⟩ := ih hcode
    refine ⟨(labels ++ [.indented (caseBlock block body)]) :: sections, ?_, ?_⟩
    · simp
    · exact .cons ⟨labels, body, ⟨_, _, hlabels⟩, ⟨_, _, hbody⟩, rfl⟩ hsections

/-- The lines that are written as the labels of a case with these literals. -/
def labelLines (ls : List Literal) : List Code :=
  ls.map fun l => .line (text "case " ++ text (literal l) ++ text ":")

/-- The labels of a case are the default label or one line for each literal. -/
theorem labels_of_yields {pattern : Pattern} {labels : List Code} (hp : pattern.IsLiteral)
    (h : (caseLabels env scope pattern).Yields i labels k) :
    (pattern = .default ∧ labels = [Code.text "default:"]) ∨
      ∃ ls, pattern = .values (ls.map .literal) ∧ (∀ l ∈ ls, l.IsProper) ∧
        labels = labelLines ls := by
  cases pattern with
  | default =>
    rw [caseLabels] at h
    obtain ⟨rfl, -⟩ := Gen.yields_pure.mp h
    exact .inl ⟨rfl, rfl⟩
  | values es =>
    obtain ⟨ls, rfl, hproper⟩ := hp
    rw [caseLabels] at h
    obtain ⟨fs, _, hfs, h⟩ := Gen.yields_bind.mp h
    obtain ⟨rfl, -⟩ := Gen.yields_pure.mp h
    refine .inr ⟨ls, rfl, hproper, ?_⟩
    rw [literals_of_yields (expr env scope) literal rfl (fun _ _ => rfl) (fun _ => rfl) hfs,
      List.map_map]
    rfl

theorem isLabelOf_literal {l : Literal} (h : l.IsProper) :
    isLabelOf value v (.line (text "case " ++ text (literal l) ++ text ":")) = (value l == v) := by
  change (Literal.read? "null" (literal l)).any (value · == v) = _
  rw [read?_literal h]
  rfl

/-- A section has a label with the value exactly if its case lists it. -/
theorem any_isLabelOf {pattern : Pattern} {labels : List Code} (hp : pattern.IsLiteral)
    (h : (caseLabels env scope pattern).Yields i labels k) :
    labels.any (isLabelOf value v) = pattern.lists value v := by
  obtain ⟨rfl, rfl⟩ | ⟨ls, rfl, hproper, rfl⟩ := labels_of_yields hp h
  · rfl
  · rw [labelLines, List.any_map, Pattern.lists, Pattern.literals_values_map, Bool.eq_iff_iff,
      List.any_eq_true, List.any_eq_true]
    refine exists_congr fun l => and_congr_right fun hl => ?_
    rw [Function.comp_apply, isLabelOf_literal (hproper l hl)]

/-- A section has the default label exactly if its case is the default. -/
theorem any_isDefaultLabel {pattern : Pattern} {labels : List Code} (hp : pattern.IsLiteral)
    (h : (caseLabels env scope pattern).Yields i labels k) :
    labels.any isDefaultLabel = pattern.isDefault := by
  obtain ⟨rfl, rfl⟩ | ⟨ls, rfl, -, rfl⟩ := labels_of_yields hp h
  · rfl
  · rw [labelLines, List.any_map]
    exact List.any_eq_false.mpr fun l _ => by simp [isDefaultLabel, text]

/-- A search goes on behind the code of a section if none of its labels is the one. -/
theorem labelledSection_append {p : Code → Bool} {labels body code : List Code}
    (h : ∀ label ∈ labels, ∃ f, label = .line f) :
    labelledSection p (labels ++ .indented body :: code) =
      if labels.any p then some 0 else (labelledSection p code).map (· + 1) := by
  induction labels with
  | nil => rfl
  | cons label labels ih =>
    obtain ⟨f, rfl⟩ := h label List.mem_cons_self
    rw [List.cons_append, labelledSection, ih fun l hl => h l (List.mem_cons_of_mem _ hl),
      List.any_cons]
    · cases p (.line f) <;> simp
    · simp

theorem line_of_mem_labels {pattern : Pattern} {labels : List Code} (hp : pattern.IsLiteral)
    (h : (caseLabels env scope pattern).Yields i labels k) :
    ∀ label ∈ labels, ∃ f, label = .line f := by
  intro label hlabel
  obtain ⟨-, rfl⟩ | ⟨ls, -, -, rfl⟩ := labels_of_yields hp h
  · exact ⟨_, List.mem_singleton.mp hlabel⟩
  · obtain ⟨l, -, rfl⟩ := List.mem_map.mp hlabel
    exact ⟨_, rfl⟩

/-- The sections are searched like the cases, if the labels of each satisfy `p` as the case
satisfies `q`. -/
theorem labelledSection_flatten {p : Code → Bool} {q : SwitchCase → Bool}
    {sections : List (List Code)} (h : List.Forall₂ (IsSectionOf env scope loop) cases sections)
    (hliteral : ∀ c ∈ cases, c.pattern.IsLiteral)
    (hlabels : ∀ c ∈ cases, ∀ ⦃j labels k⦄, (caseLabels env scope c.pattern).Yields j labels k →
      labels.any p = q c) :
    labelledSection p sections.flatten = cases.findIdx? q := by
  induction h with
  | nil => rfl
  | @cons c _ cases sections hsection _ ih =>
    obtain ⟨labels, body, ⟨_, _, hyields⟩, -, rfl⟩ := hsection
    rw [List.flatten_cons, List.append_assoc, List.singleton_append,
      labelledSection_append (line_of_mem_labels (hliteral c List.mem_cons_self) hyields),
      hlabels c List.mem_cons_self hyields, List.findIdx?_cons,
      ih (fun d hd => hliteral d (List.mem_cons_of_mem c hd))
        fun d hd => hlabels d (List.mem_cons_of_mem c hd)]

/-- A switch runs the case that lists the value, and else the default. -/
theorem selectedCase_of_yields (hliteral : ∀ c ∈ cases, c.pattern.IsLiteral)
    (h : (stmt env scope loop (.switchOn subject cases)).Yields i code k) :
    selectedCase value v code =
      (cases.findIdx? (·.pattern.lists value v)).or (cases.findIdx? (·.pattern.isDefault)) := by
  rw [stmt] at h
  obtain ⟨header, _, -, h⟩ := Gen.yields_bind.mp h
  obtain ⟨code, _, hcode, h⟩ := Gen.yields_bind.mp h
  obtain ⟨rfl, -⟩ := Gen.yields_pure.mp h
  obtain ⟨sections, rfl, hsections⟩ := sections_of_yields hcode
  rw [selectedCase,
    labelledSection_flatten hsections hliteral fun c hc _ _ _ h => any_isLabelOf (hliteral c hc) h,
    labelledSection_flatten hsections hliteral
      fun c hc _ _ _ h => any_isDefaultLabel (hliteral c hc) h]

end CSharp

/-! ### Both targets -/

/-- A match and a switch that are written for the same statement select the same case for a value
exactly if no case behind the default lists it; they do so for every value exactly if the cases
behind the default list nothing. -/
theorem selectedCase_eq_iff {rust : Rust.Env} {place : Rust.Place} {csharp : CSharp.Env}
    {scope : Scope} {loop : Option CSharp.LoopFrame} {subject : Expr} {i k i' k' : Journal}
    {code code' : List Code} (hliteral : ∀ c ∈ cases, c.pattern.IsLiteral)
    (hdistinct : ((cases.flatMap (·.pattern.literals)).map value).Nodup)
    (hrust : (Rust.stmt rust place (.switchOn subject cases)).Yields i code k)
    (hcsharp : (CSharp.stmt csharp scope loop (.switchOn subject cases)).Yields i' code' k') :
    (∀ v, Rust.selectedCase value v code = some (CSharp.selectedCase value v code') ↔
      ∀ c ∈ SwitchCase.behindDefault cases, c.pattern.lists value v = false) ∧
    ((∀ v, Rust.selectedCase value v code = some (CSharp.selectedCase value v code')) ↔
      ∀ c ∈ SwitchCase.behindDefault cases, c.pattern.literals = []) := by
  have hvalue : ∀ v, Rust.selectedCase value v code = some (CSharp.selectedCase value v code') ↔
      ∀ c ∈ SwitchCase.behindDefault cases, c.pattern.lists value v = false := by
    intro v
    rw [Rust.selectedCase_of_yields hliteral hrust,
      CSharp.selectedCase_of_yields hliteral hcsharp, Option.some_inj]
    exact SwitchCase.findIdx?_selects_iff hdistinct
  refine ⟨hvalue, ?_⟩
  simp only [hvalue]
  constructor
  · intro h c hc
    -- The value of a hidden literal would be selected differently.
    refine List.eq_nil_iff_forall_not_mem.mpr fun l hl => ?_
    have hlists : c.pattern.lists value (value l) = true :=
      Pattern.lists_iff.mpr (List.mem_map_of_mem hl)
    simp [h (value l) c hc] at hlists
  · intro h v c hc
    simp [Pattern.lists, h c hc]

/-- A default case in front of the case of `1`. -/
def defaultFirst : List SwitchCase :=
  [⟨.default, []⟩, ⟨.values [.literal (.number "1")], []⟩]

/-- For the value `1` the match runs the default in front, and the switch the case behind it. -/
theorem defaultFirst_selects_differently :
    ∃ (code code' : List Code) (k k' : Journal),
      (Rust.stmt ⟨{}, {}, []⟩ {} (.switchOn (.ident "n") defaultFirst)).Yields {} code k ∧
      (CSharp.stmt ⟨{}, {}, Resolver.dotnet⟩ {} none (.switchOn (.ident "n") defaultFirst)).Yields
        {} code' k' ∧
      Rust.selectedCase id (.number "1") code ≠
        some (CSharp.selectedCase id (.number "1") code') := by
  obtain ⟨code, k, hrust⟩ : ∃ code k,
      (Rust.stmt ⟨{}, {}, []⟩ {} (.switchOn (.ident "n") defaultFirst)).Yields {} code k :=
    ⟨_, _, rfl⟩
  obtain ⟨code', k', hcsharp⟩ : ∃ code k,
      (CSharp.stmt ⟨{}, {}, Resolver.dotnet⟩ {} none (.switchOn (.ident "n") defaultFirst)).Yields
        {} code k :=
    ⟨_, _, rfl⟩
  have hliteral : ∀ c ∈ defaultFirst, c.pattern.IsLiteral := by
    intro c hc
    obtain rfl | rfl := List.mem_pair.mp hc
    · trivial
    · exact ⟨[.number "1"], rfl, by simp [Literal.IsProper, Literal.startsNumber]⟩
  have hdistinct : ((defaultFirst.flatMap (·.pattern.literals)).map id).Nodup := by decide
  refine ⟨code, code', k, k', hrust, hcsharp, fun hsame => ?_⟩
  have hbehind := ((selectedCase_eq_iff hliteral hdistinct hrust hcsharp).1 _).mp hsame
  exact absurd (hbehind _ (List.mem_singleton.mpr rfl)) (by decide)

end SourceGen
