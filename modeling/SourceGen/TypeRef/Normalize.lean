import SourceGen.Text.Blank
import SourceGen.Text.Lines
import SourceGen.TypeRef.Basic

/-!
# Normal forms of type references

A reference without arguments may hold its structure as text: `map<string, list<int>>`, `int[]`,
`string?`. Its normal form has that structure as arguments, all the way down.

## Main definitions

* `TypeRef.splitArgs`: the parts of an argument text between the commas outside all brackets.
* `TypeRef.ofText`: the reference that a text describes.
* `TypeRef.normalize`: the normal form of a reference.
-/

namespace SourceGen

namespace TypeRef

/-- How a character changes the bracket depth. -/
def bracketWeight (c : Char) : Int :=
  if c = '[' ∨ c = '<' ∨ c = '(' then 1
  else if c = ']' ∨ c = '>' ∨ c = ')' then -1
  else 0

/-- The parts of a text between the commas at depth zero, when it starts at `depth`; at least
one. The depth is an integer of any size. A signed depth of 32 bits is the same one on every text of
fewer than `2 ^ 31` characters, since each character changes it by one at most. -/
def partsFrom (depth : Int) : List Char → List (List Char)
  | [] => [[]]
  | c :: cs =>
    if c = ',' ∧ depth = 0 then [] :: partsFrom depth cs
    else Text.consFirst c (partsFrom (depth + bracketWeight c) cs)

/-- The parts, without the last if it is blank. -/
def dropBlankLast : List (List Char) → List (List Char)
  | [] => []
  | [p] => if p.all Text.isBlank then [] else [p]
  | p :: ps => p :: dropBlankLast ps

/-- The argument texts between the commas outside all brackets, where the depth of the brackets is
an unbounded integer. -/
def splitArgs (cs : List Char) : List (List Char) :=
  dropBlankLast (partsFrom 0 cs)

theorem length_le_of_mem_consFirst {c : Char} {n : Nat} {ps : List (List Char)}
    (h : ∀ p ∈ ps, p.length ≤ n) : ∀ p ∈ Text.consFirst c ps, p.length ≤ n + 1 := by
  cases ps with
  | nil => simp [Text.consFirst]
  | cons q qs =>
    intro p hp
    simp only [Text.consFirst, List.mem_cons] at hp
    rcases hp with rfl | hp
    · have := h q (by simp)
      simpa using this
    · have := h p (by simp [hp])
      omega

theorem length_le_of_mem_partsFrom {depth : Int} {cs : List Char} :
    ∀ p ∈ partsFrom depth cs, p.length ≤ cs.length := by
  induction cs generalizing depth with
  | nil => simp [partsFrom]
  | cons c cs ih =>
    intro p hp
    rw [partsFrom] at hp
    split at hp
    · simp only [List.mem_cons] at hp
      rcases hp with rfl | hp
      · simp
      · have := ih p hp
        simp only [List.length_cons]
        omega
    · simpa using length_le_of_mem_consFirst ih p hp

theorem mem_of_mem_dropBlankLast {ps : List (List Char)} {p : List Char}
    (h : p ∈ dropBlankLast ps) : p ∈ ps := by
  fun_induction dropBlankLast ps with
  | case1 => simp at h
  | case2 => simp at h
  | case3 => simpa using h
  | case4 q qs _ ih =>
    simp only [List.mem_cons] at h ⊢
    exact h.imp id ih

/-- An argument text is no longer than the text it was cut from. -/
theorem length_le_of_mem_splitArgs {cs p : List Char} (h : p ∈ splitArgs cs) :
    p.length ≤ cs.length :=
  length_le_of_mem_partsFrom p (mem_of_mem_dropBlankLast h)

theorem length_trimChars_le (cs : List Char) : (Text.trimChars cs).length ≤ cs.length := by
  simp only [Text.trimChars, List.length_reverse]
  refine Nat.le_trans (List.dropWhile_suffix _).length_le ?_
  simpa using (List.dropWhile_suffix (l := cs) Text.isBlank).length_le

/-- The text before a suffix, if it ends with that suffix. -/
def stripSuffix? (suffix cs : List Char) : Option (List Char) :=
  if suffix.isSuffixOf cs then some (cs.take (cs.length - suffix.length)) else none

/-- The two texts around the first `<`, without the `>` that must end the whole. -/
def angles? (cs : List Char) : Option (List Char × List Char) :=
  match stripSuffix? ['>'] cs with
  | none => none
  | some cs =>
    match cs.dropWhile (· != '<') with
    | [] => none
    | _ :: inner => some (cs.takeWhile (· != '<'), inner)

theorem length_lt_of_stripSuffix? {suffix cs inner : List Char} (hs : suffix ≠ [])
    (h : stripSuffix? suffix cs = some inner) : inner.length < cs.length := by
  unfold stripSuffix? at h
  split at h
  · rename_i hsuf
    have hlen := (List.isSuffixOf_iff_suffix.1 hsuf).length_le
    have hpos := List.length_pos_iff.2 hs
    simp only [Option.some.injEq] at h
    subst h
    simp only [List.length_take]
    omega
  · simp at h

theorem length_lt_of_angles? {cs name inner : List Char} (h : angles? cs = some (name, inner)) :
    inner.length < cs.length := by
  unfold angles? at h
  split at h
  · simp at h
  · rename_i stripped hs
    have hlt := length_lt_of_stripSuffix? (by simp) hs
    split at h
    · simp at h
    · rename_i c after hdrop
      simp only [Option.some.injEq, Prod.mk.injEq] at h
      obtain ⟨-, rfl⟩ := h
      have hle := (List.dropWhile_suffix (l := stripped) (· != '<')).length_le
      rw [hdrop] at hle
      simp only [List.length_cons] at hle
      omega

/-- What the end of a type text says about it. -/
inductive TextForm where
  | optional (inner : List Char)
  | array (inner : List Char)
  | generic (name inner : List Char)
  | plain (name : List Char)

/-- The form of a text without blanks at its ends: `T?`, `T[]`, `name<args>`, or a plain name. -/
def TextForm.of (cs : List Char) : TextForm :=
  -- The end of the text is the outermost part of the type, so `int[]?` is an optional array.
  match stripSuffix? ['?'] cs with
  | some inner => .optional inner
  | none =>
    match stripSuffix? ['[', ']'] cs with
    | some inner => .array inner
    | none =>
      match angles? cs with
      | some (name, inner) => .generic name inner
      | none => .plain cs

/-- The texts inside a text, from which its arguments are read. -/
def TextForm.inner? : TextForm → Option (List Char)
  | .optional inner | .array inner | .generic _ inner => some inner
  | .plain _ => none

theorem TextForm.length_lt_of_inner? {cs inner : List Char}
    (h : (TextForm.of cs).inner? = some inner) : inner.length < cs.length := by
  unfold TextForm.of at h
  split at h
  · rename_i hs
    simp only [TextForm.inner?, Option.some.injEq] at h
    exact length_lt_of_stripSuffix? (by simp) (h ▸ hs)
  · split at h
    · rename_i hs
      simp only [TextForm.inner?, Option.some.injEq] at h
      exact length_lt_of_stripSuffix? (by simp) (h ▸ hs)
    · split at h
      · rename_i ha
        simp only [TextForm.inner?, Option.some.injEq] at h
        exact length_lt_of_angles? (h ▸ ha)
      · simp [TextForm.inner?] at h

theorem TextForm.length_lt_of_trimmed {text inner : List Char}
    (h : (TextForm.of (Text.trimChars text)).inner? = some inner) : inner.length < text.length :=
  Nat.lt_of_lt_of_le (TextForm.length_lt_of_inner? h) (length_trimChars_le text)

/-- The reference that a text describes. Blanks around each part do not count. -/
def ofText (text : List Char) : TypeRef :=
  match _h : TextForm.of (Text.trimChars text) with
  | .optional inner => ⟨"optional", [ofText inner]⟩
  | .array inner => ⟨"array", [ofText inner]⟩
  | .generic name inner =>
    ⟨String.ofList (Text.trimChars name), (splitArgs inner).attach.map fun ⟨arg, _⟩ => ofText arg⟩
  | .plain name => ⟨String.ofList name, []⟩
termination_by text.length
decreasing_by
  · exact TextForm.length_lt_of_trimmed (by rw [_h]; rfl)
  · exact TextForm.length_lt_of_trimmed (by rw [_h]; rfl)
  · rename_i hmem
    exact Nat.lt_of_le_of_lt (length_le_of_mem_splitArgs hmem)
      (TextForm.length_lt_of_trimmed (by rw [_h]; rfl))

/-- The reading of a text, without the bookkeeping of its recursion. -/
theorem ofText_eq (text : List Char) :
    ofText text =
      match TextForm.of (Text.trimChars text) with
      | .optional inner => ⟨"optional", [ofText inner]⟩
      | .array inner => ⟨"array", [ofText inner]⟩
      | .generic name inner =>
        ⟨String.ofList (Text.trimChars name), (splitArgs inner).map ofText⟩
      | .plain name => ⟨String.ofList name, []⟩ := by
  rw [ofText]
  split <;> simp_all

mutual

/-- The reference with its structure as arguments, all the way down. -/
def normalize : TypeRef → TypeRef
  | ⟨name, []⟩ => ofText name.toList
  | ⟨name, arg :: args⟩ => ⟨Text.trim name, arg.normalize :: normalizeAll args⟩

/-- The normal forms of a list of references. -/
def normalizeAll : List TypeRef → List TypeRef
  | [] => []
  | t :: ts => t.normalize :: normalizeAll ts

end

end TypeRef

end SourceGen
