import Clarify.Proofs.ClassFile.Pool
import Clarify.Proofs.Literal.Edits

/-!
# Making a load yield its plain text

Settling a load gives the string constant that it loads another text, or gives the load a string
constant that has the text. The first changes the string under every load of the constant, and the
second takes any string constant with the text that is there, also one that is to be changed yet.

Results:
* `text_eq_of_edited`: a constant that gets another text has the same plain text at all calls.
* `settles_settle`: a settled load reads a string constant, which has the plain text for as long as
  it does not get another one.
-/

namespace Clarify

namespace Pool

/-! ## Strings -/

variable {p q : Pool} {i j : UInt16} {text : String}

theorem string?_eq_some_iff :
    p.string? i = some text ↔ ∃ value, p.get? i = some (.string value) ∧
      p.text? value = some text := by
  unfold string?
  split
  · next value here => simp [here]
  · next other =>
    constructor
    · intro h
      cases h
    · rintro ⟨value, here, -⟩
      exact absurd here (other value)

theorem Extends.string? (h : p.Extends q) (found : p.string? i = some text) :
    q.string? i = some text := by
  obtain ⟨value, here, found⟩ := string?_eq_some_iff.1 found
  exact string?_eq_some_iff.2 ⟨value, h i _ here, h.keepsNames.text? found⟩

section Replace

variable {value : UInt16} {old new : String} (string : p.string? i = some old)

include string

theorem keepsNames_replace_string (value : UInt16) :
    p.KeepsNames (p.replace i (.string value)) := by
  obtain ⟨_, here, -⟩ := string?_eq_some_iff.1 string
  exact keepsNames_replace here rfl _

/-- A string constant with another text. -/
theorem string?_replace_self (found : p.text? value = some new) :
    (p.replace i (.string value)).string? i = some new := by
  have keeps := keepsNames_replace_string string value
  obtain ⟨_, here, -⟩ := string?_eq_some_iff.1 string
  rw [string?_eq_some_iff]
  exact ⟨value, get?_replace_self (lt_size_of_get? here) _, keeps.text? found⟩

theorem string?_replace_of_ne (ne : i ≠ j) (other : p.string? j = some text) :
    (p.replace i (.string value)).string? j = some text := by
  have keeps := keepsNames_replace_string string value
  obtain ⟨w, here, found⟩ := string?_eq_some_iff.1 other
  rw [string?_eq_some_iff]
  refine ⟨w, ?_, keeps.text? found⟩
  rw [get?_replace_of_ne ne, here]

end Replace

theorem internText?_spec (size : p.size ≤ capacity) (h : p.internText? text = some (i, q)) :
    q.size ≤ capacity ∧ p.Extends q ∧ q.text? i = some text :=
  ⟨size_le_of_intern? size h, extends_of_intern? h, text?_of_get? (get?_of_intern? size h)⟩

end Pool

namespace Literal

/-! ## Constants that get another text -/

theorem getD_textsByIndex (plains : List Plain) (i : UInt16) :
    ((textsByIndex plains)[i]?).getD [] =
      ((plains.filter fun p => p.index == i).map Plain.text).reverse := by
  have fold (texts : Std.TreeMap UInt16 (List String)) :
      ((plains.foldl (fun texts p =>
          texts.insert p.index (p.text :: (texts[p.index]?).getD [])) texts)[i]?).getD [] =
        ((plains.filter fun p => p.index == i).map Plain.text).reverse ++
          (texts[i]?).getD [] := by
    induction plains generalizing texts with
    | nil => rfl
    | cons p plains ih =>
      rw [List.foldl_cons, ih, Std.TreeMap.getElem?_insert]
      simp only [Std.compare_eq_iff_eq]
      by_cases here : p.index = i
      · simp [here]
      · simp [here]
  rw [textsByIndex, fold]
  simp

theorem eq_of_allSame {texts : List String} (h : allSame texts = true) {a b : String}
    (ha : a ∈ texts) (hb : b ∈ texts) : a = b := by
  cases texts with
  | nil => cases ha
  | cons first rest =>
    have eq_first {x : String} (hx : x ∈ first :: rest) : x = first := by
      obtain rfl | hx := List.mem_cons.1 hx
      · rfl
      · exact eq_of_beq (List.all_eq_true.1 h x hx)
    rw [eq_first ha, eq_first hb]

/-- A constant that gets another text has the same plain text at all calls. -/
theorem text_eq_of_edited {c : ClassFile} {i : UInt16} (h : (edited c).contains i = true)
    {p q : Plain} (hp : p ∈ found c) (hq : q ∈ found c) (atP : p.index = i) (atQ : q.index = i) :
    p.text = q.text := by
  rw [edited, exclusive, Std.TreeSet.contains_ofList, List.contains_iff_mem,
    List.mem_filterMap] at h
  obtain ⟨⟨j, texts⟩, mem, h⟩ := h
  dsimp only at h
  split at h
  · next alike =>
    cases h
    have texts_eq := getD_textsByIndex (found c) i
    rw [Std.TreeMap.mem_toList_iff_getElem?_eq_some.1 mem, Option.getD_some] at texts_eq
    have same : allSame texts = true := (Bool.and_eq_true_iff.1 alike).2
    have mem_texts {r : Plain} (hr : r ∈ found c) (here : r.index = i) : r.text ∈ texts := by
      rw [texts_eq, List.mem_reverse]
      exact List.mem_map_of_mem (List.mem_filter.2 ⟨hr, beq_iff_eq.2 here⟩)
    exact eq_of_allSame same (mem_texts hp atP) (mem_texts hq atQ)
  · cases h

/-! ## The text on entry -/

theorem IsSite.isSome_string? {c : ClassFile} {p : Plain} (h : IsSite c p) :
    (c.pool.string? p.index).isSome = true := by
  have load := h.load
  simp only [loadedString?, Option.bind_eq_bind, Option.bind_eq_some_iff] at load
  obtain ⟨x, -, load⟩ := load
  split at load
  · next string =>
    cases load
    exact (Bool.and_eq_true_iff.1 string).2
  · cases load

/-- A literal that is plain already is its own plain text. -/
theorem IsSite.string?_of_unchanged {c : ClassFile} {p : Plain} (h : IsSite c p)
    (plain : p.unchanged = true) : c.pool.string? p.index = some p.text := by
  obtain ⟨decoding, units, -, raw, -, same⟩ := h.decodes
  rw [plain, eq_comm, beq_iff_eq] at same
  unfold unitsAt? at raw
  split at raw
  · next value here =>
    obtain ⟨bytes, text, rfl⟩ := Option.map_eq_some_iff.1 raw
    rw [Pool.string?_eq_some_iff]
    refine ⟨value, here, ?_⟩
    rw [Pool.text?, text, Option.map_some, ModifiedUtf8.decode, ← same, Utf16.decodeLossy_ofString]
  · cases raw

/-! ## One state and a later one -/

/-- String constants stay string constants, and keep their texts unless they get another one. -/
structure Later (s t : Progress) : Prop where
  repointed : ∀ i, s.repointed.contains i = true → t.repointed.contains i = true
  isSome : ∀ i, (s.file.pool.string? i).isSome = true → (t.file.pool.string? i).isSome = true
  string? : ∀ i text, s.file.pool.string? i = some text →
    t.repointed.contains i = false ∨ s.repointed.contains i = true →
      t.file.pool.string? i = some text

/-- The state in which nothing has changed yet. -/
def start (c : ClassFile) : Progress := { file := c, repointed := ∅ }

/-- What it takes to settle a load: nobody has touched it, and the pool is a later one. -/
structure Ready (c : ClassFile) (s : Progress) (p : Plain) : Prop where
  site : IsSite c p
  size_le : s.file.pool.size ≤ Pool.capacity
  later : Later (start c) s
  loads : Loads s.file p p.index

/-- A load reads a string constant, its own one or another if that is shared, which has the plain
text unless it got another one. -/
def Yields (edited : Std.TreeSet UInt16) (s : Progress) (p : Plain) : Prop :=
  ∃ x text, Loads s.file p x ∧ s.file.pool.string? x = some text ∧
    (s.repointed.contains x = false → text = p.text) ∧
    (x = p.index ∨ p.unchanged = false ∧ edited.contains p.index = false)

/-- What settling a load ensures, by whether it worked. -/
structure Settles (edited : Std.TreeSet UInt16) (p : Plain) (s t : Progress) (worked : Bool) :
    Prop where
  size_le : t.file.pool.size ≤ Pool.capacity
  later : Later s t
  spares : Spares s.file t.file [p]
  repointed : ∀ i, t.repointed.contains i = true → s.repointed.contains i = true ∨
    worked = true ∧ i = p.index ∧ edited.contains i = true ∧
      t.file.pool.string? i = some p.text
  yields : worked = true → Yields edited t p
  own : worked = true → p.unchanged = false → edited.contains p.index = true →
    t.repointed.contains p.index = true

namespace Later

theorem refl (s : Progress) : Later s s := ⟨fun _ h => h, fun _ h => h, fun _ _ h _ => h⟩

theorem trans {s t u : Progress} (h : Later s t) (h' : Later t u) : Later s u where
  repointed i before := h'.repointed i (h.repointed i before)
  isSome i before := h'.isSome i (h.isSome i before)
  string? i text before kept := by
    obtain untouched | touched := kept
    · have untouched' : t.repointed.contains i = false := by
        rw [Bool.eq_false_iff]
        intro touched
        rw [h'.repointed i touched] at untouched
        cases untouched
      exact h'.string? i text (h.string? i text before (.inl untouched')) (.inl untouched)
    · have between := h.string? i text before (.inr touched)
      exact h'.string? i text between (.inr (h.repointed i touched))

/-- Adding constants changes no string. -/
theorem of_extends {s : Progress} {file : ClassFile} (h : s.file.pool.Extends file.pool) :
    Later s { s with file } where
  repointed _ before := before
  isSome i before := by
    obtain ⟨text, here⟩ := Option.isSome_iff_exists.1 before
    rw [h.string? here]
    rfl
  string? i text before _ := h.string? before

end Later

theorem Yields.later {E : Std.TreeSet UInt16} {s t : Progress} {p : Plain} (h : Yields E s p)
    (later : Later s t) (loads : ∀ x, Loads s.file p x → Loads t.file p x) : Yields E t p := by
  obtain ⟨x, text, load, here, same, own⟩ := h
  have isSome := later.isSome x (by rw [here]; rfl)
  obtain ⟨text', there⟩ := Option.isSome_iff_exists.1 isSome
  refine ⟨x, text', loads x load, there, fun untouched => ?_, own⟩
  have before : s.repointed.contains x = false := by
    rw [Bool.eq_false_iff]
    intro touched
    rw [later.repointed x touched] at untouched
    cases untouched
  have kept := later.string? x text here (.inl untouched)
  rw [there] at kept
  cases kept
  exact same before

/-! ## Settling a load -/

section Settle

variable {c : ClassFile} {E : Std.TreeSet UInt16} {p : Plain} {s : Progress}

/-- Nothing but constants is added where there is no room. -/
theorem settles_failed {pool : Pool} (size : pool.size ≤ Pool.capacity)
    (grown : s.file.pool.Extends pool) :
    Settles E p s { s with file := { s.file with pool } } false where
  size_le := size
  later := .of_extends grown
  spares := spares_withPool s.file pool [p]
  repointed _ touched := .inl touched
  yields worked := by cases worked
  own worked := by cases worked

/-- A load that is left alone. -/
theorem settles_self (ready : Ready c s p)
    (same : p.unchanged = true ∨ s.repointed.contains p.index = true) : Settles E p s s true where
  size_le := ready.size_le
  later := .refl s
  spares := spares_withPool s.file s.file.pool [p]
  repointed _ touched := .inl touched
  yields _ := by
    have isSome := ready.later.isSome p.index ready.site.isSome_string?
    obtain ⟨text, here⟩ := Option.isSome_iff_exists.1 isSome
    refine ⟨p.index, text, ready.loads, here, fun untouched => ?_, .inl rfl⟩
    obtain plain | touched := same
    · have entry := ready.site.string?_of_unchanged plain
      rw [ready.later.string? _ _ entry (.inl untouched)] at here
      cases here
      rfl
    · rw [touched] at untouched
      cases untouched
  own _ changed _ := by
    obtain plain | touched := same
    · rw [plain] at changed
      cases changed
    · exact touched

theorem contains_insert_iff {set : Std.TreeSet UInt16} {i j : UInt16} :
    (set.insert i).contains j = true ↔ i = j ∨ set.contains j = true := by
  simp only [Std.TreeSet.contains_insert, Bool.or_eq_true, beq_iff_eq, Std.compare_eq_iff_eq]

/-- Another text for a string constant that has not got one yet. -/
theorem Later.of_replace {pool : Pool} {i text : UInt16} {old new : String}
    (untouched : s.repointed.contains i = false) (grown : s.file.pool.Extends pool)
    (string : pool.string? i = some old) (found : pool.text? text = some new) :
    Later s { file := { s.file with pool := pool.replace i (.string text) }
              repointed := s.repointed.insert i } where
  repointed j before := contains_insert_iff.2 (.inr before)
  isSome j before := by
    by_cases here : i = j
    · subst here
      rw [Pool.string?_replace_self string found]
      rfl
    · obtain ⟨w, before⟩ := Option.isSome_iff_exists.1 before
      rw [Pool.string?_replace_of_ne string here (grown.string? before)]
      rfl
  string? j w before kept := by
    have ne : i ≠ j := by
      rintro rfl
      obtain out | touched := kept
      · rw [contains_insert_iff.2 (.inl rfl)] at out
        cases out
      · rw [touched] at untouched
        cases untouched
    exact Pool.string?_replace_of_ne string ne (grown.string? before)

theorem settles_repoint (ready : Ready c s p) (exclusive : E.contains p.index = true)
    (untouched : s.repointed.contains p.index = false) {text : UInt16} {pool : Pool}
    (h : s.file.pool.internText? p.text = some (text, pool)) :
    Settles E p s
      { file := { s.file with pool := pool.replace p.index (.string text) }
        repointed := s.repointed.insert p.index } true := by
  obtain ⟨size, grown, found⟩ := Pool.internText?_spec ready.size_le h
  have isSome := ready.later.isSome p.index ready.site.isSome_string?
  obtain ⟨old, before⟩ := Option.isSome_iff_exists.1 isSome
  have string := grown.string? before
  have new := Pool.string?_replace_self string found
  refine ⟨?_, .of_replace untouched grown string found, ?_, ?_, ?_, ?_⟩
  · rw [Pool.size_replace]
    exact size
  · exact spares_withPool s.file _ [p]
  · intro i touched
    obtain rfl | before := contains_insert_iff.1 touched
    · exact .inr ⟨rfl, rfl, exclusive, new⟩
    · exact .inl before
  · intro _
    exact ⟨p.index, p.text, ready.loads, new, fun _ => rfl, .inl rfl⟩
  · intro _ _ _
    exact contains_insert_iff.2 (.inl rfl)

theorem settles_reload (ready : Ready c s p) (changed : p.unchanged = false)
    (shared : E.contains p.index = false) :
    Settles E p s (reload s p).1 (reload s p).2 := by
  unfold reload
  split
  · exact settles_failed ready.size_le (.refl _)
  · next text pool interned =>
    obtain ⟨size, grown, found⟩ := Pool.internText?_spec ready.size_le interned
    split
    · exact settles_failed size grown
    · next x pool' interned' =>
      have size' := Pool.size_le_of_intern? size interned'
      have grown' := Pool.extends_of_intern? interned'
      have here := Pool.get?_of_intern? size interned'
      have string : pool'.string? x = some p.text :=
        Pool.string?_eq_some_iff.2 ⟨text, here, grown'.keepsNames.text? found⟩
      dsimp only
      split
      · exact settles_failed size' (grown.trans grown')
      · next operand fits =>
        have constant := (loadedString?_eq_some ready.site.load).2
        have loads : Loads { s.file with pool := pool' } p p.index := ready.loads
        refine ⟨size', .of_extends (grown.trans grown'), ?_, fun _ touched => .inl touched, ?_, ?_⟩
        · exact ready.site.spares_withOperand { s.file with pool := pool' } fits
        · intro _
          exact ⟨x, p.text, loads_withOperand loads constant fits, string, fun _ => rfl,
            .inr ⟨changed, shared⟩⟩
        · intro _ _ exclusive
          rw [exclusive] at shared
          cases shared

/-- What settling a load ensures. -/
theorem settles_settle (ready : Ready c s p) : Settles E p s (settle E s p).1 (settle E s p).2 := by
  unfold settle
  split
  · next plain => exact settles_self ready (.inl plain)
  · next changed =>
    split
    · next exclusive =>
      unfold repoint?
      by_cases touched : s.repointed.contains p.index = true
      · rw [if_pos touched]
        exact settles_self ready (.inr touched)
      · rw [if_neg touched]
        rcases interned : s.file.pool.internText? p.text with _ | ⟨text, pool⟩
        · exact settles_failed ready.size_le (.refl _)
        · exact settles_repoint ready exclusive (eq_false_of_ne_true touched) interned
    · next shared =>
      exact settles_reload ready (eq_false_of_ne_true changed) (eq_false_of_ne_true shared)

end Settle

end Literal

end Clarify
