import SourceGen.Proofs.Nesting
import SourceGen.Proofs.TextLeaves
import SourceGen.TypeRef.Shape

/-!
# Plain type references and imports

Taking the text of a type reference apart cuts it and drops blanks, so a reference without
delimiters has a normal form without delimiters. The segments of an import are joined again.

## Main results

* `TypeRef.isPlain_ofText`: what is read from a plain text is plain.
* `TypeRef.isPlain_normalize`: the normal form of a plain reference is plain.
* `TypeRef.isPlain_display`: the text of a plain reference is plain.
* `Import.isPlain_path`: the path of a plain import is plain.
-/

namespace SourceGen

namespace TypeRef

/-- No name in the reference has a delimiter. -/
abbrev IsPlain (t : TypeRef) : Prop :=
  t.everyText Text.isPlain = true

theorem allText_iff {p : String → Bool} {ts : List TypeRef} :
    allText p ts = true ↔ ∀ t ∈ ts, t.everyText p = true := by
  induction ts with
  | nil => simp [allText]
  | cons t ts ih => rw [allText, Bool.and_eq_true, ih, List.forall_mem_cons]

/-- A base type stands in front of the listed ones. -/
theorem allText_listed {p : String → Bool} {base : Option TypeRef} {listed : List TypeRef}
    (hbase : base.all (everyText p) = true) (h : allText p listed = true) :
    allText p (base.toList ++ listed) = true := by
  rw [allText_iff] at h ⊢
  cases base with
  | none => exact h
  | some t => exact List.forall_mem_cons.mpr ⟨hbase, h⟩

/-! ### Parts of a text -/

theorem mem_of_mem_trimChars {c : Char} {cs : List Char} (h : c ∈ Text.trimChars cs) : c ∈ cs := by
  rw [Text.trimChars, List.mem_reverse] at h
  have hreverse := List.dropWhile_subset _ h
  rw [List.mem_reverse] at hreverse
  exact List.dropWhile_subset _ hreverse

theorem mem_of_mem_stripSuffix? {suffix cs inner : List Char} {c : Char}
    (h : stripSuffix? suffix cs = some inner) (hc : c ∈ inner) : c ∈ cs := by
  unfold stripSuffix? at h
  split at h
  · obtain rfl := Option.some.inj h
    exact List.mem_of_mem_take hc
  · simp at h

theorem mem_of_mem_angles? {cs name inner : List Char} (h : angles? cs = some (name, inner)) :
    (∀ c ∈ name, c ∈ cs) ∧ ∀ c ∈ inner, c ∈ cs := by
  unfold angles? at h
  split at h
  · simp at h
  · rename_i stripped hstripped
    split at h
    · simp at h
    · rename_i d after hdrop
      simp only [Option.some.injEq, Prod.mk.injEq] at h
      obtain ⟨rfl, rfl⟩ := h
      constructor
      · intro c hc
        exact mem_of_mem_stripSuffix? hstripped (List.takeWhile_subset _ hc)
      · intro c hc
        refine mem_of_mem_stripSuffix? hstripped (List.dropWhile_subset (· != '<') ?_)
        rw [hdrop]
        exact List.mem_cons_of_mem d hc

/-- The texts that a form is made of. -/
def TextForm.parts : TextForm → List (List Char)
  | .optional inner => [inner]
  | .array inner => [inner]
  | .generic name inner => [name, inner]
  | .plain name => [name]

theorem TextForm.mem_of_mem_parts {c : Char} {cs part : List Char}
    (hpart : part ∈ (TextForm.of cs).parts) (hc : c ∈ part) : c ∈ cs := by
  unfold TextForm.of at hpart
  split at hpart
  · rename_i hstrip
    obtain rfl := List.mem_singleton.mp hpart
    exact mem_of_mem_stripSuffix? hstrip hc
  · split at hpart
    · rename_i hstrip
      obtain rfl := List.mem_singleton.mp hpart
      exact mem_of_mem_stripSuffix? hstrip hc
    · split at hpart
      · rename_i name inner hangles
        obtain ⟨hname, hinner⟩ := mem_of_mem_angles? hangles
        simp only [TextForm.parts, List.mem_cons, List.not_mem_nil, or_false] at hpart
        rcases hpart with rfl | rfl
        · exact hname c hc
        · exact hinner c hc
      · obtain rfl := List.mem_singleton.mp hpart
        exact hc

theorem mem_of_mem_partsFrom {depth : Int} {c : Char} {cs part : List Char}
    (hpart : part ∈ partsFrom depth cs) (hc : c ∈ part) : c ∈ cs := by
  induction cs generalizing depth part c with
  | nil =>
    obtain rfl := List.mem_singleton.mp hpart
    exact hc
  | cons d cs ih =>
    rw [partsFrom] at hpart
    split at hpart
    · rcases List.mem_cons.mp hpart with rfl | hpart
      · cases hc
      · exact List.mem_cons_of_mem d (ih hpart hc)
    · exact Text.mem_of_mem_consFirst (fun q hq c hc => ih hq hc) hpart hc

theorem mem_of_mem_splitArgs {c : Char} {cs part : List Char} (hpart : part ∈ splitArgs cs)
    (hc : c ∈ part) : c ∈ cs :=
  mem_of_mem_partsFrom (mem_of_mem_dropBlankLast hpart) hc

/-! ### Normal forms -/

/-- What is read from a text without delimiters has no delimiters. -/
theorem isPlain_ofText (text : List Char) (h : ∀ c ∈ text, Text.isDelimiter c = false) :
    (ofText text).IsPlain := by
  -- The induction is on the length of the text: each part is shorter, with characters of the text.
  have hparts : ∀ part ∈ (TextForm.of (Text.trimChars text)).parts, ∀ c ∈ part,
      Text.isDelimiter c = false := by
    intro part hpart c hc
    exact h c (mem_of_mem_trimChars (TextForm.mem_of_mem_parts hpart hc))
  have hname : ∀ cs : List Char, (∀ c ∈ cs, Text.isDelimiter c = false) →
      Text.isPlain (String.ofList cs) = true := by
    intro cs hcs
    simpa [Text.isPlain] using hcs
  rw [ofText_eq]
  cases hform : TextForm.of (Text.trimChars text) with
  | optional inner =>
    rw [hform] at hparts
    have hinner := isPlain_ofText inner (hparts inner List.mem_cons_self)
    simp only [IsPlain, everyText, allText, hinner, Bool.and_true]
    rfl
  | array inner =>
    rw [hform] at hparts
    have hinner := isPlain_ofText inner (hparts inner List.mem_cons_self)
    simp only [IsPlain, everyText, allText, hinner, Bool.and_true]
    rfl
  | generic name inner =>
    rw [hform] at hparts
    have hargs : ∀ t ∈ (splitArgs inner).map ofText, t.IsPlain := by
      intro t ht
      obtain ⟨arg, harg, rfl⟩ := List.mem_map.mp ht
      have hinner := hparts inner (List.mem_cons_of_mem name List.mem_cons_self)
      exact isPlain_ofText arg fun c hc => hinner c (mem_of_mem_splitArgs harg hc)
    have htrimmed := hname (Text.trimChars name) fun c hc =>
      hparts name List.mem_cons_self c (mem_of_mem_trimChars hc)
    rw [IsPlain, everyText, htrimmed, allText_iff.mpr hargs]
    rfl
  | plain name =>
    rw [hform] at hparts
    rw [IsPlain, everyText, hname name (hparts name List.mem_cons_self)]
    rfl
termination_by text.length
decreasing_by
  · exact TextForm.length_lt_of_trimmed (by rw [hform]; rfl)
  · exact TextForm.length_lt_of_trimmed (by rw [hform]; rfl)
  · exact Nat.lt_of_le_of_lt (length_le_of_mem_splitArgs harg)
      (TextForm.length_lt_of_trimmed (by rw [hform]; rfl))

mutual

theorem isPlain_normalize : ∀ t : TypeRef, t.IsPlain → t.normalize.IsPlain
  | ⟨name, []⟩, h => by
    rw [IsPlain, everyText, Bool.and_eq_true] at h
    rw [normalize]
    exact isPlain_ofText _ fun c hc => Text.isDelimiter_eq_false_of_mem h.1 hc
  | ⟨name, arg :: args⟩, h => by
    rw [IsPlain, everyText, allText, Bool.and_eq_true, Bool.and_eq_true] at h
    rw [normalize, IsPlain, everyText, allText, Text.isPlain_trim h.1,
      isPlain_normalize arg h.2.1, isPlain_normalizeAll args h.2.2]
    rfl

theorem isPlain_normalizeAll : ∀ ts : List TypeRef, allText Text.isPlain ts = true →
    allText Text.isPlain (normalizeAll ts) = true
  | [], h => by
    rw [normalizeAll]
    exact h
  | t :: ts, h => by
    rw [allText, Bool.and_eq_true] at h
    rw [normalizeAll, allText, isPlain_normalize t h.1, isPlain_normalizeAll ts h.2]
    rfl

end

/-! ### Texts of references -/

mutual

/-- The text of a plain reference is plain. -/
theorem isPlain_display : ∀ t : TypeRef, t.IsPlain → Text.isPlain t.display = true
  | ⟨name, []⟩, h => by
    rw [IsPlain, everyText, Bool.and_eq_true] at h
    rw [display]
    exact h.1
  | ⟨name, arg :: args⟩, h => by
    rw [IsPlain, everyText, allText, Bool.and_eq_true, Bool.and_eq_true] at h
    have harg := isPlain_display arg h.2.1
    have hargs := isPlain_displayTail args h.2.2
    rw [display]
    simp only [Text.isPlain_append, h.1, harg, hargs]
    rfl

theorem isPlain_displayTail : ∀ ts : List TypeRef, allText Text.isPlain ts = true →
    Text.isPlain (displayTail ts) = true
  | [], _ => by
    rw [displayTail]
    rfl
  | t :: ts, h => by
    rw [allText, Bool.and_eq_true] at h
    have ht := isPlain_display t h.1
    have hts := isPlain_displayTail ts h.2
    rw [displayTail]
    simp only [Text.isPlain_append, ht, hts]
    rfl

end

end TypeRef

/-! ### Imports -/

/-- The joined segments of an import. -/
theorem Import.isPlain_path {d : Import} (h : d.everyText Text.isPlain = true) {sep : String}
    (hsep : Text.isPlain sep = true) : Text.isPlain (Text.join sep d.path) = true := by
  rw [Import.everyText, Bool.and_eq_true] at h
  exact Text.isPlain_join hsep (List.all_eq_true.mp h.1)

theorem Import.isPlain_localName {d : Import} (h : d.everyText Text.isPlain = true)
    {name : String} (hname : d.localName = some name) : Text.isPlain name = true := by
  rw [Import.everyText, Bool.and_eq_true, hname] at h
  exact h.2

/-! ### Classified references -/

/-- The name of the reference, if it is kept by the shape. -/
def TypeShape.name? : TypeShape → Option String
  | .param name | .declared name _ | .qualified name _ | .unresolved name _ => some name
  | .primitive _ | .container _ _ => none

theorem TypeRef.name_of_classify {generics : List (List GenericParam)} {known : KnownTypes}
    {t : TypeRef} {name : String} (h : name ∈ (t.classify generics known).name?) :
    name = t.name := by
  obtain ⟨own, args⟩ := t
  rw [classify] at h
  split at h
  · exact (Option.some.inj h).symm
  · split at h
    · cases h
    · split at h
      · cases h
      · split at h
        · exact (Option.some.inj h).symm
        · split at h
          · exact (Option.some.inj h).symm
          · exact (Option.some.inj h).symm

theorem Token.isPlain_name (t : Token) : Text.isPlain t.name = true := by
  -- A literal is a list of letters for the kernel, which is much cheaper to look at than its bytes.
  cases t <;> exact (Text.isPlain_ofList _).trans rfl

/-- Padding adds the filler only. -/
theorem Container.mem_fill {c : Container} {args : List String} {filler s : String}
    (h : s ∈ c.fill args filler) : s ∈ args ∨ s = filler := by
  rcases List.mem_append.mp h with h | h
  · exact .inl h
  · exact .inr (List.eq_of_mem_replicate h)

end SourceGen
