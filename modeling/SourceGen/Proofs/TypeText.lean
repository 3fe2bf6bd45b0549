import Mathlib.Algebra.Ring.Int.Defs
import Mathlib.Data.List.DropRight
import Mathlib.Data.List.Infix
import SourceGen.TypeRef.Normalize

/-!
# Type references as text

A reference with arguments and the text it is displayed as describe the same type. The text of a
reference opens and closes its brackets in one piece, so the commas that separate arguments are
exactly those that the reader splits at, however deep the arguments are nested.

## Main definitions

* `TypeRef.depth`: how many brackets are open behind a text.
* `TypeRef.IsArgument`: a text that closes its brackets and has no comma outside of them.
* `TypeRef.isReadable`: the names in a reference leave its brackets and commas intact.

## Main results

* `TypeRef.isArgument_display`: the text of a readable reference can stand as one argument.
* `TypeRef.splitArgs_display`: the argument texts are read off where they were displayed.
* `TypeRef.normalize_eq_normalize_display`: displaying a reference does not change its normal form.
-/

namespace SourceGen

/-! ### Blanks at the ends -/

namespace Text

theorem trimChars_of_dropWhile {cs ds : List Char}
    (h : cs.dropWhile isBlank = ds.dropWhile isBlank) : trimChars cs = trimChars ds := by
  rw [trimChars, trimChars, h]

theorem trimChars_blank_cons {c : Char} (h : isBlank c = true) (cs : List Char) :
    trimChars (c :: cs) = trimChars cs :=
  trimChars_of_dropWhile (List.dropWhile_cons_of_pos h)

theorem trimChars_dropWhile (cs : List Char) : trimChars (cs.dropWhile isBlank) = trimChars cs :=
  trimChars_of_dropWhile (List.dropWhile_idempotent isBlank cs)

/-- Between two characters that are no blanks nothing is dropped. -/
theorem trimChars_append_cons {c d : Char} (hc : isBlank c = false) (hd : isBlank d = false)
    (front cs : List Char) :
    trimChars (front ++ c :: cs ++ [d]) = front.dropWhile isBlank ++ c :: cs ++ [d] := by
  have hfront : (front ++ c :: cs ++ [d]).dropWhile isBlank =
      front.dropWhile isBlank ++ c :: cs ++ [d] := by
    rw [List.append_assoc, List.append_assoc, List.dropWhile_append]
    split
    · rename_i hempty
      rw [List.cons_append, List.dropWhile_cons_of_neg (by simp [hc]), List.isEmpty_iff.mp hempty]
      rfl
    · rfl
  rw [trimChars, hfront, List.reverse_append, List.reverse_singleton, List.singleton_append,
    List.dropWhile_cons_of_neg (by simp [hd]), ← List.singleton_append, List.reverse_append,
    List.reverse_reverse, List.reverse_singleton]

end Text

namespace TypeRef

/-! ### Brackets and commas -/

/-- How many brackets are open behind a text. -/
def depth (cs : List Char) : Int :=
  (cs.map bracketWeight).sum

@[simp] theorem depth_nil : depth [] = 0 :=
  rfl

@[simp] theorem depth_cons (c : Char) (cs : List Char) :
    depth (c :: cs) = bracketWeight c + depth cs := by
  simp [depth]

@[simp] theorem depth_append (cs ds : List Char) : depth (cs ++ ds) = depth cs + depth ds := by
  simp [depth]

/-- The text can stand as one argument: it closes the brackets that it opens, closes none before it
was opened, and has no comma outside of them. The kinds of the brackets do not matter. -/
def IsArgument (cs : List Char) : Prop :=
  depth cs = 0 ∧ (∀ before ∈ cs.inits, 0 ≤ depth before) ∧
    ∀ before ∈ cs.inits, before ++ [','] ∈ cs.inits → depth before ≠ 0

instance (cs : List Char) : Decidable (IsArgument cs) :=
  inferInstanceAs (Decidable (_ ∧ _ ∧ _))

/-- The name has neither brackets nor commas. -/
def isBare (name : String) : Bool :=
  name.toList.all fun c => bracketWeight c == 0 && c != ','

mutual

/-- A name with arguments is bare, and one without can stand as one argument that is not blank. -/
def isReadable : TypeRef → Bool
  | ⟨name, []⟩ => !Text.isBlankText name && decide (IsArgument name.toList)
  | ⟨name, arg :: args⟩ => isBare name && arg.isReadable && allReadable args

/-- All of the references are readable. -/
def allReadable : List TypeRef → Bool
  | [] => true
  | t :: ts => t.isReadable && allReadable ts

end

/-! ### Texts read from a depth on -/

/-- Read with `d` brackets open, the text closes no bracket more than there are open, and each of
its commas stands inside of one. -/
def Holds (d : Int) (cs : List Char) : Prop :=
  ∀ before, before <+: cs → 0 ≤ d + depth before ∧ (before ++ [','] <+: cs → d + depth before ≠ 0)

theorem isArgument_iff {cs : List Char} : IsArgument cs ↔ depth cs = 0 ∧ Holds 0 cs := by
  simp only [IsArgument, Holds, List.mem_inits, Int.zero_add, forall_and]

namespace Holds

variable {d : Int} {cs ds : List Char}

theorem append (hcs : Holds d cs) (hds : Holds (d + depth cs) ds) : Holds d (cs ++ ds) := by
  intro before hbefore
  -- The text so far ends in the first part, or it goes on in the second.
  by_cases hshort : before.length < cs.length
  · have hfirst : before <+: cs :=
      List.prefix_of_prefix_length_le hbefore (List.prefix_append cs ds) hshort.le
    refine ⟨(hcs before hfirst).1, fun hcomma => (hcs before hfirst).2 ?_⟩
    refine List.prefix_of_prefix_length_le hcomma (List.prefix_append cs ds) ?_
    rw [List.length_append]
    exact hshort
  · obtain ⟨behind, rfl⟩ : cs <+: before :=
      List.prefix_of_prefix_length_le (List.prefix_append cs ds) hbefore (by omega)
    have hbehind := hds behind ((List.prefix_append_right_inj cs).mp hbefore)
    rw [depth_append, ← Int.add_assoc]
    refine ⟨hbehind.1, fun hcomma => hbehind.2 ?_⟩
    rw [List.append_assoc] at hcomma
    exact (List.prefix_append_right_inj cs).mp hcomma

theorem nil (hd : 0 ≤ d) : Holds d [] := by
  intro before hbefore
  obtain rfl := List.prefix_nil.mp hbefore
  exact ⟨by simpa using hd, by simp⟩

/-- A character moves the depth, and a comma must not stand outside. -/
theorem cons {c : Char} (hd : 0 ≤ d) (hc : c = ',' → d ≠ 0) (hcs : Holds (d + bracketWeight c) cs) :
    Holds d (c :: cs) := by
  intro before hbefore
  rcases List.prefix_cons_iff.mp hbefore with rfl | ⟨rest, rfl, hrest⟩
  · refine ⟨by simpa using hd, fun hcomma => ?_⟩
    rw [List.nil_append, List.cons_prefix_cons] at hcomma
    simpa using hc hcomma.1.symm
  · rw [depth_cons, ← Int.add_assoc]
    refine ⟨(hcs rest hrest).1, fun hcomma => (hcs rest hrest).2 ?_⟩
    rw [List.cons_append, List.cons_prefix_cons] at hcomma
    exact hcomma.2

/-- Inside one more bracket every comma is fine. -/
theorem succ (hcs : Holds 0 cs) : Holds 1 cs := by
  intro before hbefore
  have hdepth := (hcs before hbefore).1
  exact ⟨by omega, fun _ => by omega⟩

end Holds

/-- A bare name leaves the depth as it is. -/
theorem holds_of_isBare {name : String} (h : isBare name = true) :
    depth name.toList = 0 ∧ Holds 0 name.toList := by
  unfold isBare at h
  generalize name.toList = cs at h
  induction cs with
  | nil => exact ⟨rfl, .nil (Int.le_refl 0)⟩
  | cons c cs ih =>
    simp only [List.all_cons, Bool.and_eq_true, beq_iff_eq, bne_iff_ne] at h
    obtain ⟨⟨hweight, hcomma⟩, hcs⟩ := h
    obtain ⟨hdepth, hholds⟩ := ih hcs
    rw [depth_cons, hweight, hdepth]
    refine ⟨rfl, .cons (Int.le_refl 0) (fun hc => absurd hc hcomma) ?_⟩
    rwa [hweight]

/-! ### Texts of references -/

theorem toList_display (name : String) (arg : TypeRef) (args : List TypeRef) :
    (display ⟨name, arg :: args⟩).toList =
      name.toList ++ '<' :: (arg.display.toList ++ (displayTail args).toList) ++ ['>'] := by
  simp [display]

theorem toList_displayTail (arg : TypeRef) (args : List TypeRef) :
    (displayTail (arg :: args)).toList =
      ',' :: (' ' :: arg.display.toList ++ (displayTail args).toList) := by
  simp [displayTail]

mutual

/-- The text of a readable reference can stand as one argument. -/
theorem isArgument_display : ∀ t : TypeRef, t.isReadable = true → IsArgument t.display.toList
  | ⟨name, []⟩, h => by
    rw [isReadable, Bool.and_eq_true, decide_eq_true_eq] at h
    rw [display]
    exact h.2
  | ⟨name, arg :: args⟩, h => by
    rw [isReadable, Bool.and_eq_true, Bool.and_eq_true] at h
    obtain ⟨⟨hname, harg⟩, hargs⟩ := h
    obtain ⟨hdepth, hholds⟩ := isArgument_iff.mp (isArgument_display arg harg)
    obtain ⟨htail, hinner⟩ := holds_displayTail args hargs
    obtain ⟨hbare, hfront⟩ := holds_of_isBare hname
    rw [isArgument_iff, toList_display]
    constructor
    · simp [hbare, hdepth, htail, bracketWeight]
    · -- Behind the name there is one bracket more open, up to the last one.
      have hargs' : Holds 1 (arg.display.toList ++ (displayTail args).toList) :=
        hholds.succ.append (by rwa [hdepth])
      refine Holds.append (hfront.append ?_) ?_
      · rw [hbare]
        exact .cons (Int.le_refl 0) (by simp) hargs'
      · simp only [depth_append, depth_cons, hbare, hdepth, htail]
        exact .cons (by decide) (by simp) (.nil (by decide))

/-- The texts of the arguments after the first close their brackets. -/
theorem holds_displayTail : ∀ ts : List TypeRef, allReadable ts = true →
    depth (displayTail ts).toList = 0 ∧ Holds 1 (displayTail ts).toList
  | [], _ => ⟨rfl, .nil (by decide)⟩
  | t :: ts, h => by
    rw [allReadable, Bool.and_eq_true] at h
    obtain ⟨hdepth, hholds⟩ := isArgument_iff.mp (isArgument_display t h.1)
    obtain ⟨htail, hinner⟩ := holds_displayTail ts h.2
    rw [toList_displayTail]
    constructor
    · simp [hdepth, htail, bracketWeight]
    · refine .cons (by decide) (by decide) ?_
      exact .cons (by decide) (by decide) (hholds.succ.append (by rwa [hdepth]))

end

theorem isBlank_display (t : TypeRef) (h : t.isReadable = true) :
    t.display.toList.all Text.isBlank = false := by
  obtain ⟨name, args⟩ := t
  cases args with
  | nil =>
    rw [isReadable, Bool.and_eq_true, Bool.not_eq_true'] at h
    rw [display]
    exact h.1
  | cons arg args =>
    rw [toList_display]
    simp [Text.isBlank]

/-! ### Reading the arguments -/

/-- Up to a comma outside of all brackets the characters belong to one part. -/
theorem partsFrom_append {d : Int} {cs : List Char} (h : Holds d cs) (rest : List Char) :
    partsFrom d (cs ++ rest) = cs.foldr Text.consFirst (partsFrom (d + depth cs) rest) := by
  induction cs generalizing d with
  | nil => simp
  | cons c cs ih =>
    have hcomma : ¬ (c = ',' ∧ d = 0) := by
      rintro ⟨rfl, hd⟩
      exact (h [] List.nil_prefix).2 (by simp) (by simpa using hd)
    have hrest : Holds (d + bracketWeight c) cs := by
      intro before hbefore
      have hcons := h (c :: before) (List.cons_prefix_cons.mpr ⟨rfl, hbefore⟩)
      rw [depth_cons, ← Int.add_assoc] at hcons
      exact ⟨hcons.1, fun h => hcons.2 (List.cons_prefix_cons.mpr ⟨rfl, h⟩)⟩
    rw [List.cons_append, partsFrom, if_neg hcomma, ih hrest, List.foldr_cons, depth_cons,
      Int.add_assoc]

theorem foldr_consFirst (cs p : List Char) (ps : List (List Char)) :
    cs.foldr Text.consFirst (p :: ps) = (cs ++ p) :: ps := by
  induction cs with
  | nil => rfl
  | cons c cs ih =>
    rw [List.foldr_cons, ih]
    rfl

theorem partsFrom_of_isArgument {cs : List Char} (h : IsArgument cs) : partsFrom 0 cs = [cs] := by
  have hparts := partsFrom_append (isArgument_iff.mp h).2 []
  simpa [partsFrom, foldr_consFirst] using hparts

theorem partsFrom_of_isArgument_comma {cs : List Char} (h : IsArgument cs) (rest : List Char) :
    partsFrom 0 (cs ++ ',' :: rest) = cs :: partsFrom 0 rest := by
  obtain ⟨hdepth, hholds⟩ := isArgument_iff.mp h
  rw [partsFrom_append hholds, hdepth, Int.add_zero, partsFrom, if_pos ⟨rfl, rfl⟩, foldr_consFirst,
    List.append_nil]

/-- A blank in front of an argument does not matter for its brackets. -/
theorem IsArgument.blank {cs : List Char} (h : IsArgument cs) : IsArgument (' ' :: cs) := by
  obtain ⟨hdepth, hholds⟩ := isArgument_iff.mp h
  have hweight : bracketWeight ' ' = 0 := by decide
  rw [isArgument_iff, depth_cons, hweight, hdepth]
  exact ⟨rfl, .cons (Int.le_refl 0) (by decide) (by rwa [hweight])⟩

/-- The parts between the commas are the displayed arguments. -/
theorem partsFrom_displayTail {cs : List Char} (hcs : IsArgument cs) {ts : List TypeRef}
    (hts : allReadable ts = true) :
    partsFrom 0 (cs ++ (displayTail ts).toList) =
      cs :: ts.map fun t => ' ' :: t.display.toList := by
  induction ts generalizing cs with
  | nil => simpa [displayTail] using partsFrom_of_isArgument hcs
  | cons t ts ih =>
    rw [allReadable, Bool.and_eq_true] at hts
    rw [toList_displayTail, partsFrom_of_isArgument_comma hcs,
      ih (isArgument_display t hts.1).blank hts.2, List.map_cons]

theorem dropBlankLast_eq_self {ps : List (List Char)}
    (h : ∀ p ∈ ps, p.all Text.isBlank = false) : dropBlankLast ps = ps := by
  fun_induction dropBlankLast ps with
  | case1 => rfl
  | case2 p hp => simp only [List.forall_mem_singleton, hp, Bool.true_eq_false] at h
  | case3 => rfl
  | case4 p ps _ ih => rw [ih fun q hq => h q (List.mem_cons_of_mem p hq)]

theorem forall_of_allReadable {ts : List TypeRef} (h : allReadable ts = true) :
    ∀ t ∈ ts, t.isReadable = true := by
  induction ts with
  | nil => simp
  | cons t ts ih =>
    rw [allReadable, Bool.and_eq_true] at h
    exact List.forall_mem_cons.mpr ⟨h.1, ih h.2⟩

/-- The argument texts are read off where they were displayed. -/
theorem splitArgs_display {t : TypeRef} {ts : List TypeRef} (ht : t.isReadable = true)
    (hts : allReadable ts = true) :
    splitArgs (t.display.toList ++ (displayTail ts).toList) =
      t.display.toList :: ts.map fun t => ' ' :: t.display.toList := by
  rw [splitArgs, partsFrom_displayTail (isArgument_display t ht) hts]
  refine dropBlankLast_eq_self (List.forall_mem_cons.mpr ⟨isBlank_display t ht, ?_⟩)
  intro p hp
  obtain ⟨u, hu, rfl⟩ := List.mem_map.mp hp
  rw [List.all_cons, isBlank_display u (forall_of_allReadable hts u hu), Bool.and_false]

/-! ### Reading a whole text -/

/-- A text does not end with a suffix whose last character is another one. -/
theorem stripSuffix?_concat_of_ne (suffix : List Char) {c d : Char} (h : c ≠ d) (cs : List Char) :
    stripSuffix? (suffix ++ [c]) (cs ++ [d]) = none := by
  rw [stripSuffix?, if_neg]
  rw [List.isSuffixOf_iff_suffix]
  rintro ⟨front, hfront⟩
  rw [← List.append_assoc] at hfront
  exact h (List.singleton_inj.mp (List.append_inj_right' hfront rfl))

/-- A text that ends with `>` has the form of a name with arguments, up to the first `<`. -/
theorem TextForm.of_angles {name inner : List Char} (h : '<' ∉ name) :
    TextForm.of (name ++ '<' :: inner ++ ['>']) = .generic name inner := by
  have hoptional : stripSuffix? ['?'] (name ++ '<' :: inner ++ ['>']) = none :=
    stripSuffix?_concat_of_ne [] (by decide) _
  have harray : stripSuffix? ['[', ']'] (name ++ '<' :: inner ++ ['>']) = none :=
    stripSuffix?_concat_of_ne ['['] (by decide) _
  have hstrip : stripSuffix? ['>'] (name ++ '<' :: inner ++ ['>']) =
      some (name ++ '<' :: inner) := by
    rw [stripSuffix?, if_pos (List.isSuffixOf_iff_suffix.mpr (List.suffix_append _ _)),
      List.length_append, Nat.add_sub_cancel, List.take_left']
    rfl
  have hname : ∀ c ∈ name, (c != '<') = true := by
    intro c hc
    exact bne_iff_ne.mpr fun heq => h (heq ▸ hc)
  have hangles : angles? (name ++ '<' :: inner ++ ['>']) = some (name, inner) := by
    rw [angles?, hstrip]
    simp [List.dropWhile_append_of_pos hname, List.takeWhile_append_of_pos hname]
  rw [TextForm.of, hoptional, harray, hangles]

/-- Blanks in front of a text do not count. -/
theorem ofText_blank_cons (cs : List Char) : ofText (' ' :: cs) = ofText cs := by
  rw [ofText_eq, ofText_eq, Text.trimChars_blank_cons (by decide)]

/-- Reading a name with arguments reads the name and each argument text. -/
theorem ofText_angles {name inner : List Char} (h : '<' ∉ name) :
    ofText (name ++ '<' :: inner ++ ['>']) =
      ⟨String.ofList (Text.trimChars name), (splitArgs inner).map ofText⟩ := by
  have hname : '<' ∉ name.dropWhile Text.isBlank :=
    fun hmem => h (List.dropWhile_subset _ hmem)
  rw [ofText_eq, Text.trimChars_append_cons (by decide) (by decide), TextForm.of_angles hname]
  dsimp only
  rw [Text.trimChars_dropWhile]

theorem notMem_of_isBare {name : String} (h : isBare name = true) : '<' ∉ name.toList := by
  intro hmem
  have hbare := List.all_eq_true.mp h '<' hmem
  revert hbare
  decide

mutual

/-- The text of a readable reference describes its normal form. -/
theorem ofText_display : ∀ t : TypeRef, t.isReadable = true → ofText t.display.toList = t.normalize
  | ⟨name, []⟩, _ => by rw [display, normalize]
  | ⟨name, arg :: args⟩, h => by
    rw [isReadable, Bool.and_eq_true, Bool.and_eq_true] at h
    obtain ⟨⟨hname, harg⟩, hargs⟩ := h
    rw [toList_display, ofText_angles (notMem_of_isBare hname), splitArgs_display harg hargs,
      List.map_cons, List.map_map, ofText_display arg harg, map_ofText_display args hargs,
      normalize]
    rfl

theorem map_ofText_display : ∀ ts : List TypeRef, allReadable ts = true →
    ts.map (ofText ∘ fun t => ' ' :: t.display.toList) = normalizeAll ts
  | [], _ => by rw [normalizeAll]; rfl
  | t :: ts, h => by
    rw [allReadable, Bool.and_eq_true] at h
    rw [List.map_cons, Function.comp_apply, ofText_blank_cons, ofText_display t h.1,
      map_ofText_display ts h.2, normalizeAll]

end

/-- A reference and its text mean the same: the text, taken as an unstructured name, has the normal
form of the reference. -/
theorem normalize_eq_normalize_display {t : TypeRef} (h : t.isReadable = true) :
    t.normalize = (named t.display).normalize := by
  rw [named, normalize, ofText_display t h]

/-- A map from optional lists to pairs, partly written as text. -/
def mixedMap : TypeRef :=
  ⟨" map ", [named " list<int[]>?", ⟨"tuple", [named "map<string, int>", named "string?"]⟩]⟩

theorem normalize_mixedMap :
    mixedMap.isReadable = true ∧
      mixedMap.display = " map < list<int[]>?, tuple<map<string, int>, string?>>" ∧
      mixedMap.normalize =
        (named " map < list<int[]>?, tuple<map<string, int>, string?>>").normalize := by
  have hreadable : mixedMap.isReadable = true := by decide
  have hdisplay : mixedMap.display = " map < list<int[]>?, tuple<map<string, int>, string?>>" := by
    decide
  exact ⟨hreadable, hdisplay, hdisplay ▸ normalize_eq_normalize_display hreadable⟩

end TypeRef

end SourceGen
