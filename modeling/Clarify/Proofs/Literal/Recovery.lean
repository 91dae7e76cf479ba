import Clarify.Proofs.ClassFile.WellFormed
import Clarify.Proofs.Literal.Settling
import Mathlib.Tactic.ByContra

/-!
# What recovered literals load

The calls are recovered one after the other over one pool. A call that is done stays done: its load
and its `nop`s are not touched again, and its string constant changes only if the constant is one
that gets another text for a later call.

Results:
* `recovering_foldl`: what holds while the calls are recovered.
* `string?_load_of_own`: a recovered load that keeps its string constant reads the plain text.
* `string?_load_recoverLiterals`: any recovered load does exactly if its constant does not get
  another text for another call.
-/

namespace Clarify

namespace Literal

variable {c : ClassFile} {p q : Plain}

/-! ## One call after the other -/

/-- What holds after some calls were recovered, with others to come. -/
structure Recovering (c : ClassFile) (s : Progress) (done todo : List Plain) : Prop where
  size_le : s.file.pool.size ≤ Pool.capacity
  later : Later (start c) s
  repointed : ∀ i, s.repointed.contains i = true → ∃ q ∈ done, q.index = i ∧
    (edited c).contains i = true ∧ s.file.pool.string? i = some q.text
  own : ∀ q ∈ done, q.unchanged = false → (edited c).contains q.index = true →
    s.repointed.contains q.index = true
  yields : ∀ q ∈ done, Yields (edited c) s q
  removed : ∀ q ∈ done, Removed s.file q
  loads : ∀ q ∈ todo, Loads s.file q q.index

section Step

variable {s t : Progress} {done todo : List Plain}

/-- Changing one load and call, with which `extra` is done, leaves the others as they are. -/
theorem Recovering.step (h : Recovering c s done (p :: todo))
    (before : ∀ q ∈ done, IsSite c q ∧ Behind q p) (behind : ∀ q ∈ todo, IsSite c q ∧ Behind p q)
    (size : t.file.pool.size ≤ Pool.capacity) (later : Later s t)
    (spares : Spares s.file t.file [p]) (extra : List Plain)
    (repointed : ∀ i, t.repointed.contains i = true → s.repointed.contains i = true ∨
      ∃ q ∈ extra, q.index = i ∧ (edited c).contains i = true ∧
        t.file.pool.string? i = some q.text)
    (own : ∀ q ∈ extra, q.unchanged = false → (edited c).contains q.index = true →
      t.repointed.contains q.index = true)
    (yields : ∀ q ∈ extra, Yields (edited c) t q) (removed : ∀ q ∈ extra, Removed t.file q) :
    Recovering c t (extra ++ done) todo where
  size_le := size
  later := h.later.trans later
  repointed i touched := by
    obtain old | ⟨q, mem, new⟩ := repointed i touched
    · obtain ⟨q, mem, here, edited, text⟩ := h.repointed i old
      exact ⟨q, List.mem_append_right _ mem, here, edited, later.string? i _ text (.inr old)⟩
    · exact ⟨q, List.mem_append_left _ mem, new⟩
  own q mem changed edited := by
    obtain new | old := List.mem_append.1 mem
    · exact own q new changed edited
    · exact later.repointed _ (h.own q old changed edited)
  yields q mem := by
    obtain new | old := List.mem_append.1 mem
    · exact yields q new
    · obtain ⟨site, order⟩ := before q old
      exact (h.yields q old).later later fun _ loads =>
        loads.of_spares site.next spares (.inl order)
  removed q mem := by
    obtain new | old := List.mem_append.1 mem
    · exact removed q new
    · obtain ⟨site, order⟩ := before q old
      exact (h.removed q old).of_spares site.next spares (.inl order)
  loads q mem := by
    obtain ⟨site, order⟩ := behind q mem
    exact (h.loads q (List.mem_cons_of_mem _ mem)).of_spares site.next spares (.inr order)

end Step

theorem recovered_recoverCall (E : Std.TreeSet UInt16) (o : Outcome) (p : Plain) :
    ∀ q ∈ (recoverCall E o p).recovered, q = p ∨ q ∈ o.recovered := by
  intro q mem
  unfold recoverCall at mem
  split at mem
  · exact List.mem_cons.1 mem
  · exact .inr mem

/-- Recovering one call. -/
theorem recovering_recoverCall {o : Outcome} {todo : List Plain}
    (h : Recovering c o.progress o.recovered (p :: todo)) (site : IsSite c p)
    (before : ∀ q ∈ o.recovered, IsSite c q ∧ Behind q p)
    (behind : ∀ q ∈ todo, IsSite c q ∧ Behind p q) :
    Recovering c (recoverCall (edited c) o p).progress (recoverCall (edited c) o p).recovered
      todo := by
  have ready : Ready c o.progress p := ⟨site, h.size_le, h.later, h.loads p List.mem_cons_self⟩
  unfold recoverCall
  rcases e : settle (edited c) o.progress p with ⟨s, worked⟩
  have settles : Settles (edited c) p o.progress s worked := by
    have spec := settles_settle (E := edited c) ready
    rw [e] at spec
    exact spec
  cases worked with
  | false =>
    -- The pool may have grown, but no code has changed.
    refine h.step before behind settles.size_le settles.later settles.spares [] ?_ ?_ ?_ ?_
    · intro i touched
      obtain old | ⟨worked, -⟩ := settles.repointed i touched
      · exact .inl old
      · cases worked
    all_goals
      intro q mem
      exact absurd mem List.not_mem_nil
  | true =>
    -- Removing the call comes on top of settling its load, and leaves the pool alone.
    have later : Later s { s with file := removeCall s.file p.call } := .of_extends (.refl _)
    have spares : Spares s.file (removeCall s.file p.call) [p] := spares_removeCall _ site.next
    refine h.step (t := { s with file := removeCall s.file p.call }) before behind settles.size_le
      (settles.later.trans later) (settles.spares.trans spares) [p] ?_ ?_ ?_ ?_
    · intro i touched
      obtain old | ⟨-, rfl, edited, text⟩ := settles.repointed i touched
      · exact .inl old
      · exact .inr ⟨p, by simp, rfl, edited, text⟩
    all_goals
      intro q mem
      rw [List.mem_singleton] at mem
      subst mem
    · exact settles.own rfl
    · exact (settles.yields rfl).later later fun x loads => loads_removeCall loads site.next
    · obtain ⟨x, -, loads, -⟩ := settles.yields rfl
      exact removed_removeCall loads

/-- Recovering all calls. -/
theorem recovering_foldl {o : Outcome} {todo : List Plain}
    (h : Recovering c o.progress o.recovered todo) (sites : ∀ p ∈ todo, IsSite c p)
    (order : todo.Pairwise Behind)
    (before : ∀ q ∈ o.recovered, IsSite c q ∧ ∀ p ∈ todo, Behind q p) :
    Recovering c (todo.foldl (recoverCall (edited c)) o).progress
      (todo.foldl (recoverCall (edited c)) o).recovered [] := by
  induction todo generalizing o with
  | nil => exact h
  | cons p todo ih =>
    rw [List.pairwise_cons] at order
    have site := sites p List.mem_cons_self
    rw [List.foldl_cons]
    refine ih (recovering_recoverCall h site ?_ ?_) ?_ order.2 ?_
    · intro q mem
      obtain ⟨site, behind⟩ := before q mem
      exact ⟨site, behind p List.mem_cons_self⟩
    · intro q mem
      exact ⟨sites q (List.mem_cons_of_mem _ mem), order.1 q mem⟩
    · intro q mem
      exact sites q (List.mem_cons_of_mem _ mem)
    · intro q mem
      obtain rfl | mem := recovered_recoverCall _ o p q mem
      · exact ⟨site, order.1⟩
      · obtain ⟨site, behind⟩ := before q mem
        exact ⟨site, fun r hr => behind r (List.mem_cons_of_mem _ hr)⟩

theorem recovered_foldl (E : Std.TreeSet UInt16) (o : Outcome) (todo : List Plain) :
    ∀ q ∈ (todo.foldl (recoverCall E) o).recovered, q ∈ todo ∨ q ∈ o.recovered := by
  induction todo generalizing o with
  | nil => exact fun q mem => .inr mem
  | cons p todo ih =>
    intro q mem
    rw [List.foldl_cons] at mem
    obtain mem | mem := ih _ q mem
    · exact .inl (List.mem_cons_of_mem _ mem)
    · obtain rfl | mem := recovered_recoverCall E o p q mem
      · exact .inl List.mem_cons_self
      · exact .inr mem

/-! ## The whole class -/

/-- Where recovering the calls of a class ends. -/
def outcome (c : ClassFile) : Outcome :=
  (found c).foldl (recoverCall (edited c)) { progress := start c, recovered := [], failed := [] }

/-- The calls that are recovered, in the order in which they are found. -/
def recovered (c : ClassFile) : List Plain := (outcome c).recovered.reverse

/-- What is told about a recovered call. -/
def Plain.report (p : Plain) : RecoveredLiteral where
  method := p.call.label
  offset := p.load.offset
  text := p.text

/-- There is no call without a helper. -/
theorem found_eq_nil (none : c.helpers.isEmpty = true) : found c = [] := by
  rw [List.isEmpty_iff] at none
  refine List.eq_nil_iff_forall_not_mem.2 fun p mem => ?_
  obtain ⟨-, _, r, -, -, -, -, helper⟩ := (isSite_of_mem_found mem).invokes
  rw [none] at helper
  cases helper

theorem recoverLiterals_eq (c : ClassFile) :
    c.recoverLiterals.1 = (outcome c).progress.file ∧
      c.recoverLiterals.2.recovered = (recovered c).map Plain.report := by
  unfold ClassFile.recoverLiterals
  dsimp only
  split
  · next none =>
    rw [recovered, outcome, found_eq_nil none]
    exact ⟨rfl, rfl⟩
  · exact ⟨rfl, rfl⟩

theorem mem_found_of_mem_recovered (h : p ∈ recovered c) : p ∈ found c := by
  rw [recovered, List.mem_reverse] at h
  exact (recovered_foldl _ _ _ p h).resolve_right List.not_mem_nil

/-- What holds at the end. -/
theorem recovering_outcome (size : c.pool.size ≤ Pool.capacity) :
    Recovering c (outcome c).progress (outcome c).recovered [] := by
  have sites (p : Plain) (mem : p ∈ found c) : IsSite c p := isSite_of_mem_found mem
  have untouched (i : UInt16) : (start c).repointed.contains i = false := by simp [start]
  have none (q : Plain) (mem : q ∈ []) : False := List.not_mem_nil mem
  refine recovering_foldl ?_ sites (pairwise_found c) fun q mem => (none q mem).elim
  refine ⟨size, .refl _, ?_, fun q mem => (none q mem).elim, fun q mem => (none q mem).elim,
    fun q mem => (none q mem).elim, fun p mem => (sites p mem).loads⟩
  intro i touched
  rw [untouched i] at touched
  cases touched

section Final

variable {s : Progress} {done : List Plain} {i : UInt16} {text : String}

/-- A constant that got another text got it for one of the calls that are done, and has it for all
of them. -/
theorem Recovering.text_of_repointed (h : Recovering c s done []) (sites : ∀ q ∈ done, q ∈ found c)
    (touched : s.repointed.contains i = true) (here : s.file.pool.string? i = some text) :
    (edited c).contains i = true ∧ (∃ q ∈ done, q.index = i) ∧
      ∀ q ∈ found c, q.index = i → q.text = text := by
  obtain ⟨r, mem, at', exclusive, found⟩ := h.repointed i touched
  rw [here] at found
  cases found
  exact ⟨exclusive, ⟨r, mem, at'⟩, fun q hq same =>
    text_eq_of_edited exclusive hq (sites r mem) same at'⟩

/-- A constant that did not get another text has the plain text of all calls that are done and for
which it would have got it. -/
theorem Recovering.text_of_not_repointed (h : Recovering c s done [])
    (sites : ∀ q ∈ done, q ∈ found c) (untouched : s.repointed.contains i = false)
    (here : s.file.pool.string? i = some text) (mem : q ∈ done) (at' : q.index = i)
    (exclusive : (edited c).contains i = true) : q.text = text := by
  have plain : q.unchanged = true := by
    by_contra changed
    have touched := h.own q mem (eq_false_of_ne_true changed) (at' ▸ exclusive)
    rw [at', untouched] at touched
    cases touched
  have entry := (isSite_of_mem_found (sites q mem)).string?_of_unchanged plain
  rw [at'] at entry
  rw [h.later.string? i q.text entry (.inl untouched)] at here
  exact Option.some.inj here

end Final

/-- A load that keeps its string constant reads the plain text. -/
theorem string?_load_of_own {bytes : Bytes} (h : ClassFile.parse bytes = .ok c)
    (mem : p ∈ recovered c)
    (own : p.unchanged = true ∨ (edited c).contains p.index = true) :
    Loads c.recoverLiterals.1 p p.index ∧
      c.recoverLiterals.1.pool.string? p.index = some p.text := by
  have run := recovering_outcome (ClassFile.wellFormed_of_parse h).size_le
  have sites (q : Plain) (hq : q ∈ (outcome c).recovered) : q ∈ found c :=
    mem_found_of_mem_recovered (List.mem_reverse.2 hq)
  rw [(recoverLiterals_eq c).1]
  obtain ⟨x, text, loads, here, same, rfl | shared⟩ := run.yields p (List.mem_reverse.1 mem)
  · refine ⟨loads, here.trans (congrArg some ?_)⟩
    by_cases touched : (outcome c).progress.repointed.contains p.index = true
    · obtain ⟨-, -, texts⟩ := run.text_of_repointed sites touched here
      exact (texts p (mem_found_of_mem_recovered mem) rfl).symm
    · exact same (eq_false_of_ne_true touched)
  · obtain plain | exclusive := own
    · rw [shared.1] at plain
      cases plain
    · rw [shared.2] at exclusive
      cases exclusive

/-! ## Two strings that are each other's plain texts -/

/-- A class with a helper `d` that flips the last bit of each unit, and a method `m` that calls it
with the strings `Q` and `P` and loads `Q` once more in between, as it is. -/
def crossed : ClassFile where
  minorVersion := 0
  majorVersion := 52
  pool := ⟨#[none, some (.utf8 [0x53]), some (.classRef 1), some (.utf8 [0x64]),
    some (.utf8 (ModifiedUtf8.encode "(Ljava/lang/String;)Ljava/lang/String;")),
    some (.nameAndType 3 4), some (.memberRef .method 2 5),
    some (.utf8 (ModifiedUtf8.encode "Code")), some (.utf8 [0x51]), some (.string 8),
    some (.utf8 [0x50]), some (.string 10),
    some (.utf8 (ModifiedUtf8.encode "java/lang/String")), some (.classRef 12),
    some (.utf8 (ModifiedUtf8.encode "toCharArray")), some (.utf8 (ModifiedUtf8.encode "()[C")),
    some (.nameAndType 14 15), some (.memberRef .method 13 16), some (.utf8 [0x6D]),
    some (.utf8 (ModifiedUtf8.encode "()Ljava/lang/String;")),
    some (.utf8 (ModifiedUtf8.encode "java/lang/Object")), some (.classRef 20)]⟩
  access := Access.public ||| Access.super
  thisClass := 2
  superClass := 21
  interfaces := []
  fields := #[]
  methods := #[
    { access := Access.private ||| Access.static, name := 3, descriptor := 4
      attributes := [.code 7 ⟨8, 8,
        #[0x2A, 0xB6, 0, 17, 0x57, 0x10, 5, 0x10, 1, 0x82, 0x57, 0x2A, 0xB0], [], []⟩] },
    { access := Access.public, name := 18, descriptor := 19
      attributes := [.code 7 ⟨8, 8,
        #[0x12, 9, 0xB8, 0, 6, 0x57, 0x12, 9, 0x57, 0x12, 11, 0xB8, 0, 6, 0xB0], [], []⟩] }]
  attributes := []

theorem parse_crossed : ClassFile.parse crossed.write = .ok crossed :=
  Except.eq_ok_of_toOption (by decide +kernel)

/-- A recovered load reads a string constant, and there are `nop`s only behind it. The string is the
plain text exactly if the constant is not one that got another text for another call. -/
theorem string?_load_recoverLiterals {bytes : Bytes} (h : ClassFile.parse bytes = .ok c) :
    c.recoverLiterals.2.recovered = (recovered c).map Plain.report ∧
      ∀ p ∈ recovered c, IsSite c p ∧ Removed c.recoverLiterals.1 p ∧ ∃ x text,
        Loads c.recoverLiterals.1 p x ∧ c.recoverLiterals.1.pool.string? x = some text ∧
          (text = p.text ↔ ∀ q ∈ recovered c, q.index = x → (edited c).contains x = true →
            q.text = p.text) := by
  obtain ⟨file, report⟩ := recoverLiterals_eq c
  refine ⟨report, fun p mem => ?_⟩
  have run := recovering_outcome (ClassFile.wellFormed_of_parse h).size_le
  have sites (q : Plain) (hq : q ∈ (outcome c).recovered) : q ∈ found c :=
    mem_found_of_mem_recovered (List.mem_reverse.2 hq)
  rw [file]
  have done := List.mem_reverse.1 mem
  obtain ⟨x, text, loads, here, same, -⟩ := run.yields p done
  refine ⟨isSite_of_mem_found (sites p done), run.removed p done, x, text, loads, here, ?_⟩
  by_cases touched : (outcome c).progress.repointed.contains x = true
  · obtain ⟨exclusive, ⟨r, hr, atX⟩, texts⟩ := run.text_of_repointed sites touched here
    constructor
    · rintro rfl q hq there -
      exact texts q (mem_found_of_mem_recovered hq) there
    · intro all
      rw [← all r (List.mem_reverse.2 hr) atX exclusive, texts r (sites r hr) atX]
  · -- Nobody has changed the text, so those that would have are plain already.
    have untouched := eq_false_of_ne_true touched
    refine iff_of_true (same untouched) fun q hq there exclusive => ?_
    rw [← same untouched]
    exact run.text_of_not_repointed sites untouched here (List.mem_reverse.1 hq) there exclusive

/-- Both calls of the class are recovered. -/
theorem string?_load_crossed :
    ClassFile.parse crossed.write = .ok crossed ∧
      crossed.recoverLiterals.2.recovered =
        [⟨"S.m()Ljava/lang/String;", 0, "P"⟩, ⟨"S.m()Ljava/lang/String;", 9, "Q"⟩] ∧
      ∀ p ∈ recovered crossed, IsSite crossed p ∧ Removed crossed.recoverLiterals.1 p ∧ ∃ x text,
        Loads crossed.recoverLiterals.1 p x ∧
          crossed.recoverLiterals.1.pool.string? x = some text ∧
          (text = p.text ↔ ∀ q ∈ recovered crossed, q.index = x →
            (edited crossed).contains x = true → q.text = p.text) := by
  obtain ⟨-, all⟩ := string?_load_recoverLiterals parse_crossed
  exact ⟨parse_crossed, by decide +kernel, all⟩

/-- The first call is given the string constant `P` that is there already, which gets the text `Q`
for the second call. -/
theorem exists_other_text : ∃ (bytes : Bytes) (c : ClassFile) (p : Plain),
    ClassFile.parse bytes = .ok c ∧ p ∈ recovered c ∧ p.report ∈ c.recoverLiterals.2.recovered ∧
      ∃ x text, Loads c.recoverLiterals.1 p x ∧
        c.recoverLiterals.1.pool.string? x = some text ∧ text ≠ p.text := by
  obtain ⟨p, first, facts⟩ := Option.map_eq_some_iff.1
    (show ((recovered crossed)[0]?).map (fun p => (p.call.method, p.call.invoke, p.load, p.text)) =
      some (1, ⟨2, 0xB8, 2, .index 6⟩, ⟨0, 0x12, 1, .index 9⟩, "P") by decide +kernel)
  simp only [Prod.mk.injEq] at facts
  obtain ⟨method, invoke, load, text⟩ := facts
  have mem := List.mem_of_getElem? first
  refine ⟨crossed.write, crossed, p, parse_crossed, mem, ?_, 11, "Q", ⟨
    #[0x12, 11, 0, 0, 0, 0x57, 0x12, 9, 0x57, 0x12, 11, 0, 0, 0, 0xB0], ?_, ?_, ?_⟩, ?_, ?_⟩
  · rw [(recoverLiterals_eq crossed).2]
    exact List.mem_map_of_mem mem
  · rw [method]
    decide +kernel
  · rw [invoke]
    decide
  · rw [load]
    rfl
  · decide +kernel
  · rw [text]
    decide

end Literal

end Clarify
