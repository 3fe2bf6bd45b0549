import SourceGen.Text.Basic
import SourceGen.Text.Blank
import SourceGen.Text.Escape
import SourceGen.Text.Lines

/-!
# Nested delimiters

Parentheses and braces are read with a stack of those that are still open. A text is well nested if
every closing delimiter closes the one opened last and none is left open at the end. A text is plain
if it has no delimiters.

## Main definitions

* `Text.scan`: the delimiters that are open behind a text.
* `Text.WellNested`: nothing is open behind the text.
* `Text.Nested`, `Text.NestedText`: the text leaves open what was open before it, and touches
  nothing of it.
* `Text.isPlain`: the text has no delimiters.

## Main results

* `Text.scan_append`: a text is read part by part.
* `Text.scan_filter`: only the delimiters count.
* `Text.nestedText_iff_wellNested`: a text is nested exactly if it is well nested on its own.
* `Text.nested_of_isPlain`: plain text is nested.
-/

namespace SourceGen

namespace Text

/-! ### Reading delimiters -/

/-- A parenthesis or a brace. -/
def isDelimiter (c : Char) : Bool :=
  c == '(' || c == ')' || c == '\x7b' || c == '\x7d'

/-- Takes the opening delimiter off the stack, if it was opened last. -/
def close (opening : Char) : List Char → Option (List Char)
  | [] => none
  | c :: stack => if c = opening then some stack else none

/-- The open delimiters behind a text that starts with those of the stack open, the last one first;
`none` if one is closed that is not the last one open. -/
def scan : List Char → List Char → Option (List Char)
  | stack, [] => some stack
  | stack, c :: cs =>
    if c = '(' ∨ c = '\x7b' then scan (c :: stack) cs
    else if c = ')' then (close '(' stack).bind (scan · cs)
    else if c = '\x7d' then (close '\x7b' stack).bind (scan · cs)
    else scan stack cs

/-- Every delimiter of the text is closed by its kind, in the reverse order of opening. -/
def WellNested (s : String) : Prop :=
  scan [] s.toList = some []

instance (s : String) : Decidable (WellNested s) :=
  inferInstanceAs (Decidable (_ = _))

/-- Whatever is open in front of the text is open behind it, and nothing else is. -/
abbrev Nested (cs : List Char) : Prop :=
  ∀ stack, scan stack cs = some stack

/-- The same for a string. -/
abbrev NestedText (s : String) : Prop :=
  Nested s.toList

/-- The text has no delimiters. -/
def isPlain (s : String) : Bool :=
  s.toList.all fun c => !isDelimiter c

attribute [simp] scan

@[simp] theorem close_self (c : Char) (stack : List Char) : close c (c :: stack) = some stack := by
  simp [close]

/-- Scanning a text is scanning its parts, each with the stack the one before it leaves. -/
@[simp] theorem scan_append (stack cs ds : List Char) :
    scan stack (cs ++ ds) = (scan stack cs).bind (scan · ds) := by
  induction cs generalizing stack with
  | nil => simp
  | cons c cs ih =>
    rw [List.cons_append, scan, scan]
    split
    · exact ih _
    · split
      · rw [Option.bind_assoc]
        exact Option.bind_congr fun stack _ => ih stack
      · split
        · rw [Option.bind_assoc]
          exact Option.bind_congr fun stack _ => ih stack
        · exact ih _

/-- A character that is no delimiter leaves the stack as it was. -/
theorem scan_cons_of_not_isDelimiter {c : Char} (h : isDelimiter c = false) (stack cs : List Char) :
    scan stack (c :: cs) = scan stack cs := by
  simp only [isDelimiter, Bool.or_eq_false_iff, beq_eq_false_iff_ne] at h
  rw [scan, if_neg (by simp [h]), if_neg h.1.1.2, if_neg h.2]

/-- Characters between the delimiters do not count. -/
theorem scan_filter (stack cs : List Char) :
    scan stack (cs.filter isDelimiter) = scan stack cs := by
  induction cs generalizing stack with
  | nil => rfl
  | cons c cs ih =>
    -- A delimiter is read alike in both texts, and what is behind it by induction.
    cases hc : isDelimiter c with
    | false => rw [List.filter_cons_of_neg (by simp [hc]), scan_cons_of_not_isDelimiter hc, ih]
    | true =>
      rw [List.filter_cons_of_pos hc, scan, scan]
      simp only [ih]

/-- What lies under the stack is not touched. -/
theorem scan_append_stack {stack opened cs : List Char} (h : scan stack cs = some opened)
    (outer : List Char) : scan (stack ++ outer) cs = some (opened ++ outer) := by
  -- Closing looks at the top of the stack only, and a stack that is empty cannot be closed.
  have hclose : ∀ {c : Char} {stack rest : List Char}, close c stack = some rest →
      close c (stack ++ outer) = some (rest ++ outer) := by
    intro c stack rest h
    cases stack with
    | nil => cases h
    | cons d stack =>
      rw [close] at h
      rw [List.cons_append, close]
      split at h
      · rename_i hd
        rw [if_pos hd, Option.some.inj h]
      · cases h
  induction cs generalizing stack with
  | nil =>
    rw [scan] at h ⊢
    rw [Option.some.inj h]
  | cons c cs ih =>
    rw [scan] at h ⊢
    split at h
    · rename_i hc
      rw [if_pos hc]
      exact ih h
    · rename_i hc
      rw [if_neg hc]
      split at h
      · rename_i hparen
        obtain ⟨rest, hrest, h⟩ := Option.bind_eq_some_iff.mp h
        rw [if_pos hparen, hclose hrest]
        exact ih h
      · rename_i hparen
        rw [if_neg hparen]
        split at h
        · rename_i hbrace
          obtain ⟨rest, hrest, h⟩ := Option.bind_eq_some_iff.mp h
          rw [if_pos hbrace, hclose hrest]
          exact ih h
        · rename_i hbrace
          rw [if_neg hbrace]
          exact ih h

/-- A text is nested exactly if it is well nested on its own. -/
theorem nestedText_iff_wellNested {s : String} : NestedText s ↔ WellNested s :=
  ⟨fun h => h [], fun h stack => scan_append_stack h stack⟩

-- The kinds have to match, even if there are as many closing delimiters as opening ones.
example : ¬ WellNested "(\x7b)\x7d" := by decide

theorem nested_ofList {cs : List Char} (h : scan [] cs = some []) :
    NestedText (String.ofList cs) := by
  rw [nestedText_iff_wellNested, WellNested, String.toList_ofList]
  exact h

/-- Two texts may be nested only together. -/
theorem nested_ofList_append {cs ds : List Char} (h : scan [] (cs ++ ds) = some []) :
    NestedText (String.ofList cs ++ String.ofList ds) := by
  rw [← String.ofList_append]
  exact nested_ofList h

/-! ### Plain text -/

theorem isDelimiter_eq_false_of_mem {s : String} (h : isPlain s = true) {c : Char}
    (hc : c ∈ s.toList) : isDelimiter c = false := by
  simpa using List.all_eq_true.mp h c hc

/-- A text without delimiters is nested. -/
theorem nested_of_all {cs : List Char} (h : ∀ c ∈ cs, isDelimiter c = false) : Nested cs := by
  intro stack
  have hfilter : cs.filter isDelimiter = [] := by simpa [List.filter_eq_nil_iff] using h
  rw [← scan_filter, hfilter, scan]

/-- A text without delimiters is nested. -/
theorem nested_of_isPlain {s : String} (h : isPlain s = true) : NestedText s :=
  nested_of_all fun _ hc => isDelimiter_eq_false_of_mem h hc

@[simp] theorem scan_toList {s : String} (h : isPlain s = true) (stack : List Char) :
    scan stack s.toList = some stack :=
  nested_of_isPlain h stack

@[simp] theorem isPlain_append (s t : String) : isPlain (s ++ t) = (isPlain s && isPlain t) := by
  simp [isPlain, List.all_append]

theorem isPlain_ofList (cs : List Char) :
    isPlain (String.ofList cs) = cs.all fun c => !isDelimiter c := by
  rw [isPlain, String.toList_ofList]

/-- Characters picked from a plain text make a plain text. -/
theorem isPlain_ofList_of_subset {cs : List Char} {s : String} (hs : isPlain s = true)
    (h : ∀ c ∈ cs, c ∈ s.toList) : isPlain (String.ofList cs) = true := by
  simp only [isPlain_ofList, List.all_eq_true, Bool.not_eq_true']
  exact fun c hc => isDelimiter_eq_false_of_mem hs (h c hc)

@[simp] theorem isPlain_repr (n : Nat) : isPlain n.repr = true := by
  rw [isPlain, List.all_eq_true]
  intro c hc
  have hdigit : c.isDigit = true := by
    refine Nat.isDigit_of_mem_toDigits (b := 10) (n := n) (by decide) (by decide) ?_
    rwa [← Nat.toList_repr]
  cases hdelimiter : isDelimiter c with
  | false => rfl
  | true =>
    simp only [isDelimiter, Bool.or_eq_true, beq_iff_eq] at hdelimiter
    rcases hdelimiter with ((rfl | rfl) | rfl) | rfl <;> simp [Char.isDigit] at hdigit

@[simp] theorem scan_toDigits (n : Nat) (stack : List Char) :
    scan stack (Nat.toDigits 10 n) = some stack := by
  rw [← Nat.toList_repr]
  exact scan_toList (isPlain_repr n) stack

/-- A number has no delimiter. -/
@[simp] theorem isPlain_intRepr (n : Int) : isPlain n.repr = true := by
  cases n with
  | ofNat n => exact isPlain_repr n
  | negSucc n =>
    have hneg : (Int.negSucc n).repr = "-" ++ n.succ.repr := rfl
    rw [hneg, isPlain_append, isPlain_repr]
    rfl

theorem isPlain_trim {s : String} (h : isPlain s = true) : isPlain (trim s) = true := by
  refine isPlain_ofList_of_subset h fun c hc => ?_
  rw [trimChars, List.mem_reverse] at hc
  exact (List.dropWhile_subset _ (by simpa using (List.dropWhile_subset _ hc)))

/-- Plain texts between plain separators are plain. -/
theorem isPlain_join {sep : String} (hsep : isPlain sep = true) {ss : List String}
    (h : ∀ s ∈ ss, isPlain s = true) : isPlain (join sep ss) = true := by
  induction ss with
  | nil => rfl
  | cons s ss ih =>
    have hs := h s List.mem_cons_self
    cases ss with
    | nil => exact hs
    | cons t ss =>
      have hrest := ih fun u hu => h u (List.mem_cons_of_mem s hu)
      rw [join, isPlain_append, isPlain_append, hs, hsep, hrest]
      · rfl
      · simp

/-- An escape has no delimiters. -/
theorem isDelimiter_of_mem_escapeWith {quote c d : Char} (hquote : isDelimiter quote = false)
    (hc : isDelimiter c = false) (hd : d ∈ escapeWith quote c) : isDelimiter d = false := by
  have hletter : ∀ letter, escapeLetter? quote c = some letter → isDelimiter letter = false := by
    intro letter h
    grind [escapeLetter?, isDelimiter]
  unfold escapeWith at hd
  split at hd
  · rename_i letter h
    simp only [List.mem_cons, List.not_mem_nil, or_false] at hd
    rcases hd with rfl | rfl
    · rfl
    · exact hletter d h
  · obtain rfl := List.mem_singleton.mp hd
    exact hc

/-- Escaping adds no delimiter to a plain text. -/
theorem isPlain_escapeString {s : String} (h : isPlain s = true) :
    isPlain (escapeString s) = true := by
  simp only [escapeString, isPlain_ofList, List.all_eq_true, Bool.not_eq_true']
  intro d hd
  obtain ⟨c, hc, hd⟩ := List.mem_flatMap.mp hd
  exact isDelimiter_of_mem_escapeWith rfl (isDelimiter_eq_false_of_mem h hc) hd

theorem isPlain_escapeChar {c : Char} (h : isDelimiter c = false) :
    isPlain (escapeChar c) = true := by
  simp only [escapeChar, isPlain_ofList, List.all_eq_true, Bool.not_eq_true']
  exact fun d hd => isDelimiter_of_mem_escapeWith rfl h hd

theorem mem_of_mem_consFirst {c d : Char} {ds part : List Char} {parts : List (List Char)}
    (h : ∀ q ∈ parts, ∀ c ∈ q, c ∈ ds) (hpart : part ∈ consFirst d parts) (hc : c ∈ part) :
    c ∈ d :: ds := by
  cases parts with
  | nil =>
    obtain rfl := List.mem_singleton.mp hpart
    exact List.mem_cons.mpr (.inl (List.mem_singleton.mp hc))
  | cons q qs =>
    rcases List.mem_cons.mp hpart with rfl | hpart
    · rcases List.mem_cons.mp hc with rfl | hc
      · exact List.mem_cons_self
      · exact List.mem_cons_of_mem d (h q List.mem_cons_self c hc)
    · exact List.mem_cons_of_mem d (h part (List.mem_cons_of_mem q hpart) c hc)

/-- Splitting invents no character. -/
theorem mem_of_mem_splitChars {sep c : Char} {cs part : List Char}
    (hpart : part ∈ splitChars sep cs) (hc : c ∈ part) : c ∈ cs := by
  induction cs generalizing part c with
  | nil =>
    obtain rfl := List.mem_singleton.mp hpart
    exact hc
  | cons d cs ih =>
    rw [splitChars] at hpart
    split at hpart
    · rcases List.mem_cons.mp hpart with rfl | hpart
      · cases hc
      · exact List.mem_cons_of_mem d (ih hpart hc)
    · exact mem_of_mem_consFirst (fun q hq c hc => ih hq hc) hpart hc

/-- The parts of a plain text are plain. -/
theorem isPlain_of_mem_splitOn {sep : Char} {s part : String} (h : isPlain s = true)
    (hpart : part ∈ splitOn sep s) : isPlain part = true := by
  obtain ⟨cs, hcs, rfl⟩ := List.mem_map.mp hpart
  exact isPlain_ofList_of_subset h fun c hc => mem_of_mem_splitChars hcs hc

/-! ### Nested text -/

/-- Nested texts side by side are nested. -/
theorem Nested.append {cs ds : List Char} (hcs : Nested cs) (hds : Nested ds) :
    Nested (cs ++ ds) := by
  intro stack
  rw [scan_append, hcs, Option.bind_some, hds]

/-- Nested texts between plain separators are nested. -/
theorem nested_join {sep : String} (hsep : isPlain sep = true) {ss : List String}
    (h : ∀ s ∈ ss, NestedText s) : NestedText (join sep ss) := by
  induction ss with
  | nil => exact fun _ => by simp [join]
  | cons s ss ih =>
    have hs := h s List.mem_cons_self
    cases ss with
    | nil => exact hs
    | cons t ss =>
      have hrest := ih fun u hu => h u (List.mem_cons_of_mem s hu)
      rw [join, NestedText, String.toList_append, String.toList_append]
      · exact (hs.append (nested_of_isPlain hsep)).append hrest
      · simp

/-- Angle brackets do not nest with the delimiters, so a list in them is nested when its parts are.
-/
theorem nested_angled {ss : List String} (h : ∀ s ∈ ss, NestedText s) : NestedText (angled ss) := by
  rw [angled]
  split
  · exact fun _ => by simp
  · have hjoin : NestedText (join ", " ss) := nested_join (by decide) h
    exact fun _ => by simp [hjoin]

/-- Texts one after the other. -/
theorem nested_stringJoin {ss : List String} (h : ∀ s ∈ ss, NestedText s) :
    NestedText (String.join ss) := by
  rw [NestedText, String.toList_join]
  induction ss with
  | nil => exact fun _ => by simp
  | cons s ss ih =>
    rw [List.flatMap_cons]
    exact (h s List.mem_cons_self).append (ih fun t ht => h t (List.mem_cons_of_mem s ht))

end Text

end SourceGen
