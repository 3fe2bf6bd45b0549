import Mathlib.Data.List.Dedup
import Mathlib.Data.Finset.Card
import Mathlib.Data.Finset.Dedup
import SourceGen.Toolchain.Cache

/-!
# Answers of a cached toolchain

A cache tells requests apart by what it sees of them, such as a fingerprint, and remembers that by a
hash. If the toolchain answers requests that look the same alike, and no two different looks in a
history have the same hash, then the cache changes nothing but the number of compilations. What it
remembers is determined by the history: the requests that succeed, one for each look, with the
newest first. Every further step compares the next request with that list.

## Main definitions

* `Toolchain.Respects`: requests that look the same are answered alike.
* `Toolchain.succeeds`: the toolchain compiles a request.
* `Toolchain.built`: the requests of a history that succeed, one for each look.
* `CachedToolchain.After`: what a cache holds after a history.

## Main results

* `CachedToolchain.After.step`, `CachedToolchain.After.run`: what one more request, and what a whole
  history, does to a cache.
* `CachedToolchain.compileAll_history`: the answers, calls and sizes along a history.
-/

namespace SourceGen

namespace Toolchain

variable {δ κ : Type} {t : Toolchain} {view : CompileRequest → δ}

/-- The toolchain compiles the request. -/
def succeeds (t : Toolchain) (r : CompileRequest) : Bool :=
  (t.compile r).isOk

theorem succeeds_iff {r : CompileRequest} :
    t.succeeds r = true ↔ ∃ output, t.compile r = .ok output := by
  unfold succeeds
  cases t.compile r with
  | error e => simp [Except.isOk, Except.toBool]
  | ok output => simp [Except.isOk, Except.toBool]

/-- Requests that look the same are answered alike. -/
def Respects (t : Toolchain) (view : CompileRequest → δ) : Prop :=
  ∀ ⦃r other : CompileRequest⦄, view r = view other → t.compile r = t.compile other

theorem Respects.succeeds_eq (ht : t.Respects view) {r other : CompileRequest}
    (h : view r = view other) : t.succeeds r = t.succeeds other := by
  rw [succeeds, succeeds, ht h]

/-! ### What was built -/

/-- What is remembered of some requests: of those that succeed, the output under the hash of their
look. -/
def entries (t : Toolchain) (view : CompileRequest → δ) (hash : δ → κ) (rs : List CompileRequest) :
    List (κ × CompileOutput) :=
  rs.filterMap fun r => (t.compile r).toOption.map (hash (view r), ·)

section Entries

variable {hash : δ → κ} {r : CompileRequest}

theorem entries_cons_of_ok {output : CompileOutput} (h : t.compile r = .ok output)
    (rs : List CompileRequest) :
    t.entries view hash (r :: rs) = (hash (view r), output) :: t.entries view hash rs := by
  simp [entries, h, Except.toOption]

theorem entries_cons_of_error {e : ToolchainError} (h : t.compile r = .error e)
    (rs : List CompileRequest) : t.entries view hash (r :: rs) = t.entries view hash rs := by
  simp [entries, h, Except.toOption]

theorem length_entries {rs : List CompileRequest} (h : ∀ r ∈ rs, t.succeeds r = true) :
    (t.entries view hash rs).length = rs.length := by
  induction rs with
  | nil => rfl
  | cons r rs ih =>
    obtain ⟨hr, hrs⟩ := List.forall_mem_cons.mp h
    obtain ⟨output, houtput⟩ := succeeds_iff.mp hr
    rw [entries_cons_of_ok houtput, List.length_cons, ih hrs, List.length_cons]

/-- If the hash tells the look of `r` apart from the others, it leads to the output of `r`. -/
theorem lookup_entries [DecidableEq δ] [DecidableEq κ] (ht : t.Respects view)
    {rs : List CompileRequest}
    (hhash : ∀ other ∈ rs, hash (view r) = hash (view other) → view r = view other) :
    (t.entries view hash rs).lookup (hash (view r)) =
      if view r ∈ rs.map view then (t.compile r).toOption else none := by
  induction rs with
  | nil => rfl
  | cons other rs ih =>
    obtain ⟨hother, hrs⟩ := List.forall_mem_cons.mp hhash
    have ih := ih hrs
    by_cases heq : view r = view other
    · rw [if_pos (by simp [heq])]
      cases hr : t.compile r with
      | ok output =>
        rw [entries_cons_of_ok (ht heq ▸ hr), heq, List.lookup_cons_self, Except.toOption]
      | error e =>
        -- A failure has no entry, here or further on.
        rw [entries_cons_of_error (ht heq ▸ hr), ih, hr]
        exact ite_self none
    · have hne : (hash (view r) == hash (view other)) = false :=
        beq_false_of_ne fun h => heq (hother h)
      have hmem : view r ∈ (other :: rs).map view ↔ view r ∈ rs.map view := by simp [heq]
      simp only [hmem]
      cases ho : t.compile other with
      | ok output => rw [entries_cons_of_ok ho, List.lookup_cons, hne, ih]
      | error e => rw [entries_cons_of_error ho, ih]

end Entries

variable [DecidableEq δ]

/-- The requests of a history that succeed, one for each look, the newest first. -/
def built (t : Toolchain) (view : CompileRequest → δ) (past : List CompileRequest) :
    List CompileRequest :=
  (past.reverse.filter t.succeeds).pwFilter (view · ≠ view ·)

theorem mem_of_mem_built {past : List CompileRequest} {r : CompileRequest}
    (h : r ∈ t.built view past) : r ∈ past ∧ t.succeeds r = true := by
  simpa using List.pwFilter_subset _ h

/-- Every look of a request that succeeds is there once. -/
theorem map_built (t : Toolchain) (view : CompileRequest → δ) (past : List CompileRequest) :
    (t.built view past).map view = ((past.reverse.filter t.succeeds).map view).dedup :=
  (List.pwFilter_map (R := (· ≠ ·)) view _).symm

/-- The number of different looks of requests that succeed. -/
theorem length_built (t : Toolchain) (view : CompileRequest → δ) (past : List CompileRequest) :
    (t.built view past).length = ((past.filter t.succeeds).map view).toFinset.card := by
  rw [← List.length_map view, map_built, ← List.card_toFinset]
  congr 1
  ext look
  simp

section Built

variable (ht : t.Respects view) {past : List CompileRequest} {r : CompileRequest}

include ht

theorem view_mem_built :
    view r ∈ (t.built view past).map view ↔ view r ∈ past.map view ∧ t.succeeds r = true := by
  simp only [map_built, List.mem_dedup, List.mem_map, List.mem_filter, List.mem_reverse]
  constructor
  · rintro ⟨other, ⟨hmem, hok⟩, hview⟩
    exact ⟨⟨other, hmem, hview⟩, ht.succeeds_eq hview ▸ hok⟩
  · rintro ⟨⟨other, hmem, hview⟩, hok⟩
    exact ⟨other, ⟨hmem, (ht.succeeds_eq hview).trans hok⟩, hview⟩

/-- A history grows by a request that succeeds with a new look. -/
theorem built_append_of_new (hok : t.succeeds r = true) (hnew : view r ∉ past.map view) :
    t.built view (past ++ [r]) = r :: t.built view past := by
  rw [built, List.reverse_append, List.reverse_singleton, List.singleton_append,
    List.filter_cons_of_pos hok, List.pwFilter_cons_of_pos, built]
  intro other hmem hview
  exact hnew ((view_mem_built ht).mp (hview ▸ List.mem_map_of_mem hmem)).1

/-- A request that fails, or one whose look succeeded before, adds nothing. -/
theorem built_append_of_old (h : t.succeeds r = true → view r ∈ past.map view) :
    t.built view (past ++ [r]) = t.built view past := by
  rw [built, List.reverse_append, List.reverse_singleton, List.singleton_append]
  by_cases hok : t.succeeds r = true
  · have hmem := (view_mem_built ht).mpr ⟨h hok, hok⟩
    rw [List.filter_cons_of_pos hok, List.pwFilter_cons_of_neg, built]
    intro hnew
    obtain ⟨other, hother, hview⟩ := List.mem_map.mp hmem
    exact hnew other hother hview.symm
  · rw [List.filter_cons_of_neg hok, built]

end Built

end Toolchain

namespace CachedToolchain

section

variable {κ : Type} [DecidableEq κ]

theorem inner_compile (c : CachedToolchain κ) (r : CompileRequest) :
    (c.compile r).2.inner = c.inner := by
  unfold compile
  split
  · rfl
  · cases c.inner.compile r with
    | ok output => rfl
    | error e => rfl

theorem key_compile (c : CachedToolchain κ) (r : CompileRequest) :
    (c.compile r).2.key = c.key := by
  unfold compile
  split
  · rfl
  · cases c.inner.compile r with
    | ok output => rfl
    | error e => rfl

/-- A history and what follows it make one history. -/
theorem compileAll_append (c : CachedToolchain κ) (rs rs' : List CompileRequest) :
    (c.compileAll (rs ++ rs')).2 = ((c.compileAll rs).2.compileAll rs').2 := by
  induction rs generalizing c with
  | nil => rfl
  | cons r rs ih => exact ih (c.compile r).2

end

variable {δ κ : Type} [DecidableEq δ]

/-- What a cache over a toolchain holds after a history. -/
structure After (t : Toolchain) (view : CompileRequest → δ) (hash : δ → κ)
    (past : List CompileRequest) (c : CachedToolchain κ) : Prop where
  inner_eq : c.inner = t
  key_eq : c.key = fun r => hash (view r)
  entries_eq : c.entries = t.entries view hash (t.built view past)
  /-- A request that succeeds was passed on once for its look, one that fails whenever it came. -/
  count_asked : ∀ r, (c.asked.map view).count (view r) =
    if t.succeeds r = true then (if view r ∈ past.map view then 1 else 0)
    else (past.map view).count (view r)

namespace After

variable {t : Toolchain} {view : CompileRequest → δ} {hash : δ → κ} {c : CachedToolchain κ}
  {past : List CompileRequest} {r : CompileRequest}

theorem fresh (t : Toolchain) (view : CompileRequest → δ) (hash : δ → κ) :
    After t view hash [] { inner := t, key := fun r => hash (view r) } where
  inner_eq := rfl
  key_eq := rfl
  entries_eq := rfl
  count_asked r := by simp

/-- The size is the number of different requests that succeeded. -/
theorem size_eq (h : After t view hash past c) :
    c.size = ((past.filter t.succeeds).map view).toFinset.card := by
  rw [size, h.entries_eq, Toolchain.length_entries fun r hr => (Toolchain.mem_of_mem_built hr).2,
    Toolchain.length_built]

variable [DecidableEq κ] (h : After t view hash past c) (ht : t.Respects view)
  (hhash : ∀ other ∈ past, hash (view r) = hash (view other) → view r = view other)

include h ht hhash

/-- A request is remembered exactly if its look succeeded before. -/
theorem remembered?_eq :
    c.remembered? r = if view r ∈ past.map view then (t.compile r).toOption else none := by
  have hkey : c.key r = hash (view r) := congrFun h.key_eq r
  have hbuilt : ∀ other ∈ t.built view past,
      hash (view r) = hash (view other) → view r = view other :=
    fun other hmem => hhash other (Toolchain.mem_of_mem_built hmem).1
  rw [remembered?, hkey, h.entries_eq, Toolchain.lookup_entries ht hbuilt]
  simp only [Toolchain.view_mem_built ht]
  by_cases hmem : view r ∈ past.map view
  · by_cases hok : t.succeeds r = true
    · simp only [hmem, hok, and_self]
    · -- A failure has no output to remember.
      cases hr : t.compile r with
      | ok output => exact absurd (Toolchain.succeeds_iff.mpr ⟨output, hr⟩) hok
      | error e => simp [hok, Except.toOption]
  · simp only [hmem, false_and]

/-- A request whose look succeeded before is answered from memory. -/
theorem compile_of_old (hmem : view r ∈ past.map view) (hok : t.succeeds r = true) :
    c.compile r = (t.compile r, c) := by
  obtain ⟨output, houtput⟩ := Toolchain.succeeds_iff.mp hok
  have hr : c.remembered? r = some output := by
    rw [h.remembered?_eq ht hhash, if_pos hmem, houtput, Except.toOption]
  rw [compile, hr, houtput]

/-- Any other request is passed on. -/
theorem compile_of_new (hnew : ¬ (t.succeeds r = true ∧ view r ∈ past.map view)) :
    c.compile r = (t.compile r, c.note r (t.compile r)) := by
  have hr : c.remembered? r = none := by
    rw [h.remembered?_eq ht hhash]
    by_cases hmem : view r ∈ past.map view
    · rw [if_pos hmem]
      cases hr : t.compile r with
      | ok output => exact absurd ⟨Toolchain.succeeds_iff.mpr ⟨output, hr⟩, hmem⟩ hnew
      | error e => rfl
    · rw [if_neg hmem]
  rw [compile, hr, h.inner_eq]

/-- The toolchain is asked unless the look of the request succeeded before. -/
theorem asked_compile :
    (c.compile r).2.asked =
      if t.succeeds r = true ∧ view r ∈ past.map view then c.asked else r :: c.asked := by
  by_cases hold : t.succeeds r = true ∧ view r ∈ past.map view
  · rw [h.compile_of_old ht hhash hold.2 hold.1, if_pos hold]
  · rw [h.compile_of_new ht hhash hold, if_neg hold]
    cases t.compile r with
    | ok output => rfl
    | error e => rfl

theorem answer_compile : (c.compile r).1 = t.compile r := by
  by_cases hold : t.succeeds r = true ∧ view r ∈ past.map view
  · rw [h.compile_of_old ht hhash hold.2 hold.1]
  · rw [h.compile_of_new ht hhash hold]

/-- A failing request leaves what is remembered as it is. -/
theorem entries_compile_of_fails (hfail : t.succeeds r = false) :
    (c.compile r).2.entries = c.entries := by
  rw [h.compile_of_new ht hhash (by simp [hfail])]
  cases hr : t.compile r with
  | ok output => exact absurd (Toolchain.succeeds_iff.mpr ⟨output, hr⟩) (by simp [hfail])
  | error e => rfl

theorem entries_compile :
    (c.compile r).2.entries = t.entries view hash (t.built view (past ++ [r])) := by
  by_cases hold : t.succeeds r = true → view r ∈ past.map view
  · rw [Toolchain.built_append_of_old ht hold, ← h.entries_eq]
    by_cases hok : t.succeeds r = true
    · rw [h.compile_of_old ht hhash (hold hok) hok]
    · exact h.entries_compile_of_fails ht hhash (by simpa using hok)
  · obtain ⟨hok, hnew⟩ := Classical.not_imp.mp hold
    obtain ⟨output, hr⟩ := Toolchain.succeeds_iff.mp hok
    rw [h.compile_of_new ht hhash fun hboth => hnew hboth.2, hr, note,
      Toolchain.built_append_of_new ht hok hnew, Toolchain.entries_cons_of_ok hr, h.entries_eq,
      show c.key r = hash (view r) from congrFun h.key_eq r]

/-- The number of times that each look was passed on, after one more request. -/
theorem count_asked_compile (other : CompileRequest) :
    ((c.compile r).2.asked.map view).count (view other) =
      if t.succeeds other = true then (if view other ∈ (past ++ [r]).map view then 1 else 0)
      else ((past ++ [r]).map view).count (view other) := by
  rw [h.asked_compile ht hhash]
  have hcount := h.count_asked other
  -- The step changes no count but that of its own look.
  by_cases heq : view r = view other
  · rw [← heq, ← ht.succeeds_eq heq] at hcount ⊢
    have hlast : (past ++ [r]).map view = past.map view ++ [view r] := List.map_append
    rw [hlast]
    by_cases hok : t.succeeds r = true
    · rw [if_pos hok] at hcount
      by_cases hmem : view r ∈ past.map view
      · rw [if_pos ⟨hok, hmem⟩, hcount, if_pos hmem, if_pos hok, if_pos (by simp)]
      · rw [if_neg fun hold => hmem hold.2, List.map_cons, List.count_cons_self, hcount,
          if_neg hmem, if_pos hok, if_pos (by simp)]
    · rw [if_neg hok] at hcount
      rw [if_neg fun hold => hok hold.1, List.map_cons, List.count_cons_self, hcount, if_neg hok,
        List.count_append, List.count_singleton_self]
  · have hmem : view other ∈ (past ++ [r]).map view ↔ view other ∈ past.map view := by
      simp [Ne.symm heq]
    have hpast : ((past ++ [r]).map view).count (view other) =
        (past.map view).count (view other) := by
      simp [heq]
    simp only [hmem, hpast, ← hcount]
    split
    · rfl
    · exact List.count_cons_of_ne heq

/-- One more request makes the history one longer. -/
theorem step : After t view hash (past ++ [r]) (c.compile r).2 where
  inner_eq := (c.inner_compile r).trans h.inner_eq
  key_eq := (c.key_compile r).trans h.key_eq
  entries_eq := h.entries_compile ht hhash
  count_asked := h.count_asked_compile ht hhash

omit hhash in
/-- A whole history: every answer is that of the toolchain. -/
theorem run {rs : List CompileRequest} (hhashes : ∀ r ∈ past ++ rs, ∀ other ∈ past ++ rs,
      hash (view r) = hash (view other) → view r = view other) :
    (c.compileAll rs).1 = rs.map t.compile ∧
      After t view hash (past ++ rs) (c.compileAll rs).2 := by
  -- On the requests to come, with `After` as the invariant: each moves from `rs` to `past`.
  induction rs generalizing past c with
  | nil =>
    rw [List.append_nil]
    exact ⟨rfl, h⟩
  | cons r rs ih =>
    have hhash : ∀ other ∈ past, hash (view r) = hash (view other) → view r = view other :=
      fun other hmem => hhashes r (by simp) other (by simp [hmem])
    rw [List.append_cons] at hhashes ⊢
    obtain ⟨hanswers, hafter⟩ := ih (h.step ht hhash) hhashes
    refine ⟨?_, hafter⟩
    rw [compileAll, List.map_cons, ← hanswers, ← h.answer_compile ht hhash]

end After

/-- Requests are told apart by what the cache sees of them, such as the fingerprint or the whole
request, and the hash tells the looks in a history apart. Then a cache over a toolchain that answers
requests with the same look alike gives the answers of the toolchain. The toolchain is asked once
for each request that succeeds, when it comes first, and every time for a request that fails. After
each request the size is the number of different requests that have succeeded, and a failing request
changes nothing that is remembered. -/
theorem compileAll_history [DecidableEq κ] (t : Toolchain) (view : CompileRequest → δ)
    (hash : δ → κ) (ht : t.Respects view) (rs : List CompileRequest)
    (hhashes : ∀ r ∈ rs, ∀ other ∈ rs, hash (view r) = hash (view other) → view r = view other) :
    let c : CachedToolchain κ := { inner := t, key := fun r => hash (view r) }
    (c.compileAll rs).1 = rs.map t.compile ∧
    (∀ r, ((c.compileAll rs).2.asked.map view).count (view r) =
      if t.succeeds r = true then (if view r ∈ rs.map view then 1 else 0)
      else (rs.map view).count (view r)) ∧
    ∀ past r future, rs = past ++ r :: future →
      let before := (c.compileAll past).2
      let after := (c.compileAll (past ++ [r])).2
      after.asked =
        (if t.succeeds r = true ∧ view r ∈ past.map view then before.asked
          else r :: before.asked) ∧
      after.size = (((past ++ [r]).filter t.succeeds).map view).toFinset.card ∧
      (t.succeeds r = false → after.entries = before.entries) := by
  intro c
  -- The cache after a run is described by the requests asked so far; a step keeps the description.
  have hfresh : After t view hash [] c := .fresh t view hash
  obtain ⟨hanswers, hafter⟩ := hfresh.run ht hhashes
  refine ⟨hanswers, hafter.count_asked, ?_⟩
  rintro past r future rfl before after
  have hpast : After t view hash past before := by
    refine (hfresh.run ht fun r' hr' other hother => ?_).2
    exact hhashes r' (List.mem_append_left _ hr') other (List.mem_append_left _ hother)
  have hhash : ∀ other ∈ past, hash (view r) = hash (view other) → view r = view other :=
    fun other hmem => hhashes r (by simp) other (by simp [hmem])
  have hstep : after = (before.compile r).2 := c.compileAll_append past [r]
  rw [hstep]
  exact ⟨hpast.asked_compile ht hhash, (hpast.step ht hhash).size_eq,
    hpast.entries_compile_of_fails ht hhash⟩

/-- Answers with the text of the root, and fails without one. -/
def echo : Toolchain where
  name := "echo"
  compile r :=
    match r.sources with
    | [] => .error .noSources
    | root :: _ => .ok ⟨root.text, []⟩

/-- Where the libraries are makes no difference, so neither does how it is spelled. -/
theorem respects_echo : echo.Respects CompileRequest.fingerprint := by
  intro r other h
  have hsources : r.sources = other.sources := congrArg Fingerprint.sources h
  simp only [echo, hsources]

/-- Some requests of a failing and of two succeeding kinds, told apart by the number of sources. One
comes with two spellings of a search path. -/
theorem echo_history :
    let failing : CompileRequest := ⟨[], .executable, none, []⟩
    let single : CompileRequest := ⟨[⟨"main", "a"⟩], .executable, none, ["libs"]⟩
    let respelled : CompileRequest := ⟨[⟨"main", "a"⟩], .executable, none, ["libs/."]⟩
    let double : CompileRequest := ⟨[⟨"main", "a"⟩, ⟨"lib", "b"⟩], .library, none, []⟩
    let rs := [single, failing, double, respelled, failing, single]
    let hash : Fingerprint → UInt64 := (·.sources.length.toUInt64)
    let c : CachedToolchain UInt64 := { inner := echo, key := fun r => hash r.fingerprint }
    echo.Respects CompileRequest.fingerprint ∧
    (∀ r ∈ rs, ∀ other ∈ rs,
      hash r.fingerprint = hash other.fingerprint → r.fingerprint = other.fingerprint) ∧
    (c.compileAll rs).1 = rs.map echo.compile ∧
    ((c.compileAll rs).2.asked.map CompileRequest.fingerprint).count single.fingerprint = 1 ∧
    ((c.compileAll rs).2.asked.map CompileRequest.fingerprint).count failing.fingerprint = 2 := by
  intro failing single respelled double rs hash c
  have hhashes : ∀ r ∈ rs, ∀ other ∈ rs,
      hash r.fingerprint = hash other.fingerprint → r.fingerprint = other.fingerprint := by
    decide
  obtain ⟨hanswers, hasked, -⟩ :=
    compileAll_history echo CompileRequest.fingerprint hash respects_echo rs hhashes
  exact ⟨respects_echo, hhashes, hanswers, (hasked single).trans (by decide),
    (hasked failing).trans (by decide)⟩

end CachedToolchain

end SourceGen
