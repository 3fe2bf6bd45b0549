import Mathlib.Data.List.Sort
import Mathlib.Data.String.Basic
import Mathlib.Tactic.SplitIfs
import SourceGen.Registry

/-!
# Lookups in registries

A registry answers from its newest registrations. A name finds the newest entry that has it, up to
the case of letters. The listing is sorted by the bytes of the ids and has each id once, with the
other names of its newest registration.

## Main definitions

* `Text.bytes`: the bytes of a text.
* `Registry.history`: what was registered, the oldest first.
* `Registry.Newest`: the last entry of a history that has some property.

## Main results

* `Text.bytes_lt_bytes`: the order of texts is the order of their bytes.
* `Registry.find?_eq_some_iff`: a name finds the newest entry that has it.
* `Registry.mem_targets_iff`: the listing has the newest registration of each id.
* `Registry.lookups_follow_newest`: all of this after any registrations.
-/

namespace SourceGen

/-! ### The order of texts by bytes -/

namespace Text

/-- The bytes of a text. -/
def bytes (s : String) : List UInt8 :=
  s.toUTF8.data.toList

theorem bytes_eq (s : String) : bytes s = s.toList.flatMap String.utf8EncodeChar := by
  rw [bytes, String.toUTF8, ← String.utf8Encode_toList, List.utf8Encode]
  simp

theorem ofNat_cons_lt {m n : Nat} {xs ys : List UInt8} (hn : n < 256) (hle : m ≤ n)
    (h : m = n → xs < ys) : UInt8.ofNat m :: xs < UInt8.ofNat n :: ys := by
  rw [List.cons_lt_cons_iff, UInt8.lt_iff_toNat_lt, UInt8.toNat_ofNat', UInt8.toNat_ofNat']
  rcases Nat.lt_or_eq_of_le hle with hlt | rfl
  · exact .inl (by omega)
  · exact .inr ⟨rfl, h rfl⟩

/-- The bytes of a smaller character come first, whatever follows. -/
theorem utf8EncodeChar_append_lt {c d : Char} (h : c < d) (xs ys : List UInt8) :
    String.utf8EncodeChar c ++ xs < String.utf8EncodeChar d ++ ys := by
  have hlt : c.val.toNat < d.val.toNat := UInt32.lt_iff_toNat_lt.mp h
  have hmax : d.val.toNat < 0x110000 := d.valid.elim (by omega) (by omega)
  unfold String.utf8EncodeChar
  generalize c.val.toNat = m at hlt ⊢
  generalize d.val.toNat = n at hlt hmax ⊢
  dsimp only
  split_ifs
  -- The first byte tells how many there are, so it decides between characters with more and fewer.
  all_goals try exact ofNat_cons_lt (by omega) (by omega) fun _ => by omega
  -- Two, three or four bytes on both sides are compared one by one.
  · exact ofNat_cons_lt (by omega) (by omega) fun _ =>
      ofNat_cons_lt (by omega) (by omega) fun _ => by omega
  · exact ofNat_cons_lt (by omega) (by omega) fun _ =>
      ofNat_cons_lt (by omega) (by omega) fun _ =>
      ofNat_cons_lt (by omega) (by omega) fun _ => by omega
  · exact ofNat_cons_lt (by omega) (by omega) fun _ =>
      ofNat_cons_lt (by omega) (by omega) fun _ =>
      ofNat_cons_lt (by omega) (by omega) fun _ =>
      ofNat_cons_lt (by omega) (by omega) fun _ => by omega

theorem flatMap_utf8EncodeChar_lt {cs ds : List Char} (h : cs < ds) :
    cs.flatMap String.utf8EncodeChar < ds.flatMap String.utf8EncodeChar := by
  induction ds generalizing cs with
  | nil => exact absurd h (List.not_lt_nil cs)
  | cons d ds ih =>
    cases cs with
    | nil =>
      rw [List.flatMap_nil, List.flatMap_cons]
      obtain ⟨b, bs, hcode⟩ := List.exists_cons_of_ne_nil (String.utf8EncodeChar_ne_nil (c := d))
      rw [hcode]
      exact List.nil_lt_cons _ _
    | cons c cs =>
      rw [List.flatMap_cons, List.flatMap_cons]
      rcases List.cons_lt_cons_iff.mp h with hlt | ⟨rfl, hlt⟩
      · exact utf8EncodeChar_append_lt hlt _ _
      · exact List.append_left_lt (ih hlt)

/-- The order of texts is the order of their bytes. -/
theorem bytes_lt_bytes {s t : String} : bytes s < bytes t ↔ s < t := by
  have hlt : ∀ {s t : String}, s < t → bytes s < bytes t := by
    intro s t h
    rw [bytes_eq, bytes_eq]
    exact flatMap_utf8EncodeChar_lt (String.lt_iff.mp h)
  refine ⟨fun h => ?_, hlt⟩
  rcases lt_trichotomy s t with hst | rfl | hts
  · exact hst
  · exact absurd h (List.lt_irrefl _)
  · exact absurd h (List.lt_asymm (hlt hts))

end Text

/-- The text is the id or another name of the entry, up to the case of letters. -/
def Registration.AnswersTo {β : Type} (e : Registration β) (id : String) : Prop :=
  ∃ name ∈ e.name.id :: e.name.aliases, Text.eqIgnoreCase name id = true

theorem Registration.accepts_iff {β : Type} {e : Registration β} {id : String} :
    e.name.accepts id = true ↔ e.AnswersTo id := by
  simp [TargetName.accepts, AnswersTo, List.any_eq_true]

namespace Registry

variable {β : Type}

/-! ### Histories -/

/-- What was registered, the oldest first. -/
def history (r : Registry β) : List (Registration β) :=
  r.entries.reverse

/-- The registry after some registrations, one after the other. -/
def registerAll (r : Registry β) (es : List (Registration β)) : Registry β :=
  es.foldl (fun r e => r.register e.name e.factory) r

/-- The entry is the last one of the history that has the property. -/
def Newest (p : Registration β → Prop) (es : List (Registration β)) (e : Registration β) :
    Prop :=
  ∃ older newer, es = older ++ e :: newer ∧ p e ∧ ∀ e' ∈ newer, ¬ p e'

@[simp] theorem history_empty : ({} : Registry β).history = [] :=
  rfl

@[simp] theorem history_register (r : Registry β) (name : TargetName) (factory : Config → β) :
    (r.register name factory).history = r.history ++ [⟨name, factory⟩] := by
  simp [history, register]

/-- The registry of the target languages is an empty one after two registrations. -/
@[simp] theorem history_defaults :
    defaults.history =
      [⟨CSharp.target, Language.csharp.backend⟩, ⟨Rust.target, Language.rust.backend⟩] :=
  rfl

@[simp] theorem history_registerAll (r : Registry β) (es : List (Registration β)) :
    (r.registerAll es).history = r.history ++ es := by
  induction es generalizing r with
  | nil => simp [registerAll]
  | cons e es ih =>
    rw [registerAll, List.foldl_cons]
    exact (ih _).trans (by simp)

variable {r : Registry β} {p : Registration β → Bool} {e : Registration β} {id : String}

/-- The entries are searched from the newest on. -/
theorem find?_entries_eq_some_iff :
    r.entries.find? p = some e ↔ Newest (p · = true) r.history e := by
  simp only [List.find?_eq_some_iff_append, Newest, history]
  constructor
  · rintro ⟨he, newer, older, hentries, hnewer⟩
    exact ⟨older.reverse, newer.reverse, by simp [hentries], he, by simpa using hnewer⟩
  · rintro ⟨older, newer, hentries, he, hnewer⟩
    refine ⟨he, newer.reverse, older.reverse, ?_, by simpa using hnewer⟩
    rw [← List.reverse_reverse r.entries, hentries]
    simp

/-! ### Lookups by name -/

/-- A name finds the newest entry that has it. -/
theorem find?_eq_some_iff : r.find? id = some e ↔ Newest (·.AnswersTo id) r.history e := by
  rw [find?, find?_entries_eq_some_iff]
  simp only [Registration.accepts_iff]

theorem create_eq_ok_iff {config : Config} {backend : β} :
    r.create id config = .ok backend ↔
      ∃ e, r.find? id = some e ∧ e.factory config = backend := by
  rw [create]
  split
  · rename_i hfind
    simp [hfind]
  · rename_i hfind
    simp [hfind]

/-- The only failure is that no entry has the name. -/
theorem create_eq_error_iff {config : Config} {failure : Failure} :
    r.create id config = .error failure ↔ failure = .unknownTarget id ∧ r.resolve id = none := by
  rw [create, resolve, Option.map_eq_none_iff]
  split
  · rename_i hfind
    simp [hfind]
  · rename_i hfind
    simp [hfind, eq_comm]

/-! ### The listing -/

/-- In a sorted list, what is kept of the targets behind the first are those with other ids. -/
theorem dropRepeats_cons {t : TargetName} {ts : List TargetName}
    (hkept : (dropRepeats ts).Pairwise (·.id < ·.id)) (ht : ∀ u ∈ dropRepeats ts, t.id ≤ u.id) :
    dropRepeats (t :: ts) = t :: (dropRepeats ts).filter (fun u => decide (t.id ≠ u.id)) := by
  rw [dropRepeats]
  cases hrest : dropRepeats ts with
  | nil => rfl
  | cons u us =>
    rw [hrest] at hkept ht
    obtain ⟨hu, -⟩ := List.pairwise_cons.mp hkept
    -- All behind `u` are larger than `u`, so only `u` itself can have the id of `t`.
    have hus : us.filter (fun u => decide (t.id ≠ u.id)) = us := by
      refine List.filter_eq_self.mpr fun v hv => decide_eq_true ?_
      exact (lt_of_le_of_lt (ht u List.mem_cons_self) (hu v hv)).ne
    rw [List.filter_cons, hus]
    by_cases hid : t.id = u.id
    · simp [hid]
    · simp [hid]

/-- Of a sorted list, the first target with each id is kept. -/
theorem mem_dropRepeats_iff {ts : List TargetName} (hts : ts.Pairwise (·.id ≤ ·.id)) :
    (dropRepeats ts).Pairwise (·.id < ·.id) ∧
      ∀ t, t ∈ dropRepeats ts ↔ ts.find? (fun u => decide (u.id = t.id)) = some t := by
  induction ts with
  | nil => simp [dropRepeats]
  | cons t ts ih =>
    obtain ⟨ht, hts⟩ := List.pairwise_cons.mp hts
    obtain ⟨hkept, hmem⟩ := ih hts
    have hle : ∀ u ∈ dropRepeats ts, t.id ≤ u.id := fun u hu =>
      ht u (List.mem_of_find?_eq_some ((hmem u).mp hu))
    rw [dropRepeats_cons hkept hle]
    constructor
    · refine List.pairwise_cons.mpr ⟨fun u hu => ?_, hkept.filter _⟩
      obtain ⟨hu, hne⟩ := List.mem_filter.mp hu
      exact lt_of_le_of_ne (hle u hu) (of_decide_eq_true hne)
    · intro u
      rw [List.mem_cons, List.mem_filter, hmem, List.find?_cons]
      by_cases hid : t.id = u.id
      · simp [hid, eq_comm]
      · have hne : u ≠ t := fun h => hid (congrArg TargetName.id h.symm)
        simp [hid, hne]

/-- Sorting keeps the order of targets with the same id. -/
theorem find?_mergeSort (ts : List TargetName) (id : String) :
    (ts.mergeSort fun a b => decide (a.id ≤ b.id)).find? (fun t => decide (t.id = id)) =
      ts.find? fun t => decide (t.id = id) := by
  set sorted := ts.mergeSort fun a b => decide (a.id ≤ b.id)
  set p : TargetName → Bool := fun t => decide (t.id = id)
  have hsub : (ts.filter p).Sublist sorted := by
    refine List.sublist_mergeSort (fun a b c => ?_) (fun a b => ?_) ?_ List.filter_sublist
    · simpa using le_trans
    · simpa using le_total a.id b.id
    · refine List.pairwise_of_forall_mem_list fun a ha b hb => ?_
      have ha : a.id = id := by simpa [p] using (List.mem_filter.mp ha).2
      have hb : b.id = id := by simpa [p] using (List.mem_filter.mp hb).2
      simp [ha, hb]
  have hkept : (ts.filter p).Sublist (sorted.filter p) := by
    simpa [List.filter_filter] using hsub.filter p
  have hlength : (ts.filter p).length = (sorted.filter p).length :=
    ((List.mergeSort_perm ts _).filter p).length_eq.symm
  rw [← List.head?_filter, ← List.head?_filter, hkept.eq_of_length hlength]

theorem pairwise_sorted (ts : List TargetName) :
    (ts.mergeSort fun a b => decide (a.id ≤ b.id)).Pairwise (·.id ≤ ·.id) := by
  refine (List.pairwise_mergeSort (fun a b c => ?_) (fun a b => ?_) ts).imp of_decide_eq_true
  · simpa using le_trans
  · simpa using le_total a.id b.id

/-- The listing is sorted by ids, and no id is listed twice. -/
theorem pairwise_targets (r : Registry β) : r.targets.Pairwise (·.id < ·.id) :=
  (mem_dropRepeats_iff (pairwise_sorted _)).1

/-- The listing has the newest registration of each id. -/
theorem mem_targets_iff {t : TargetName} :
    t ∈ r.targets ↔ ∃ e, Newest (·.name.id = t.id) r.history e ∧ e.name = t := by
  have hfind : t ∈ r.targets ↔
      (r.entries.map (·.name)).find? (fun u => decide (u.id = t.id)) = some t := by
    rw [targets, (mem_dropRepeats_iff (pairwise_sorted _)).2, find?_mergeSort]
  rw [hfind, List.find?_map, Option.map_eq_some_iff]
  simp only [find?_entries_eq_some_iff, Function.comp_apply, decide_eq_true_eq]

/-- Some entry with a property is the last one. -/
theorem exists_newest_iff {q : Registration β → Prop} [DecidablePred q] :
    (∃ e, Newest q r.history e) ↔ ∃ e ∈ r.history, q e := by
  constructor
  · rintro ⟨e, older, newer, hes, he, -⟩
    exact ⟨e, by simp [hes], he⟩
  · rintro ⟨e, hmem, he⟩
    have hsome : (r.entries.find? fun e => decide (q e)).isSome :=
      List.find?_isSome.mpr ⟨e, by simpa [history] using hmem, decide_eq_true he⟩
    obtain ⟨e', hfind⟩ := Option.isSome_iff_exists.mp hsome
    exact ⟨e', by simpa using find?_entries_eq_some_iff.mp hfind⟩

theorem exists_mem_targets_iff :
    (∃ t ∈ r.targets, t.id = id) ↔ ∃ e ∈ r.history, e.name.id = id := by
  rw [← exists_newest_iff]
  simp only [mem_targets_iff]
  constructor
  · rintro ⟨t, ⟨e, hnewest, rfl⟩, rfl⟩
    exact ⟨e, hnewest⟩
  · rintro ⟨e, hnewest⟩
    have hid : e.name.id = id := by
      obtain ⟨-, -, -, hid, -⟩ := hnewest
      exact hid
    exact ⟨e.name, ⟨e, hid ▸ hnewest, rfl⟩, hid⟩

/-- After any registrations on any registry, such as an empty one or that of the target languages,
a name is served by the newest entry that has it, or by none; and the listing has the ids of all
entries, sorted by their bytes, each once and with the other names of its newest entry. -/
theorem lookups_follow_newest (start : Registry β) (es : List (Registration β)) (config : Config) :
    let r := start.registerAll es
    let all := start.history ++ es
    (∀ id found, r.resolve id = some found ↔
      ∃ e, Newest (·.AnswersTo id) all e ∧ e.name.id = found) ∧
    (∀ id backend, r.create id config = .ok backend ↔
      ∃ e, Newest (·.AnswersTo id) all e ∧ e.factory config = backend) ∧
    (∀ id failure, r.create id config = .error failure ↔
      failure = .unknownTarget id ∧ r.resolve id = none) ∧
    r.targets.Pairwise (fun s t => Text.bytes s.id < Text.bytes t.id) ∧
    (∀ id, (∃ t ∈ r.targets, t.id = id) ↔ ∃ e ∈ all, e.name.id = id) ∧
    ∀ t, t ∈ r.targets ↔ ∃ e, Newest (·.name.id = t.id) all e ∧ e.name = t := by
  intro r all
  have hall : r.history = all := history_registerAll start es
  rw [← hall]
  refine ⟨fun id found => ?_, fun id backend => ?_, fun id failure => create_eq_error_iff, ?_,
    fun id => exists_mem_targets_iff, fun t => mem_targets_iff⟩
  · simp only [resolve, Option.map_eq_some_iff, find?_eq_some_iff]
  · rw [create_eq_ok_iff]
    simp only [find?_eq_some_iff]
  · exact (pairwise_targets r).imp Text.bytes_lt_bytes.mpr

-- A newer `csharp` takes over the id and the listing, but not a name that only the older one has.
example :
    let r := Registry.defaults.register ⟨"csharp", ["sharp"]⟩ Language.rust.backend
    (r.create "CSharp" {}).toOption.map (·.language) = some .rust ∧
      (r.create "C#" {}).toOption.map (·.language) = some .csharp := by
  decide

end Registry

end SourceGen
