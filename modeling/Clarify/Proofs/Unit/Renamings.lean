import Clarify.Proofs.Unit.Additions
import Clarify.Proofs.Unit.Natives

/-!
# All that renaming changes

Declared members and the references of the pool get the names that the plan has for them, by other
indices; the constants that were there stay where they were, and so does all that no name is in.

The attribute that names the method around a class is looked at last, when the references have their
new names. It is not checked when a class is read, so its index can lie behind the pool, where
renaming puts the pairs with new names. Then a name that the plan has just given is looked up once
more, and the attribute ends with the name that this one gets.

Results:
* `becomes_rename`: what becomes of the constants of the pool.
* `enclosingStep_of_enclosing`: what one attribute comes to.
* `attributeBecomes_rename`: what becomes of the attributes.
* `renames_exactly`: all that renaming changes, and what it counts.
* `exists_renamed_twice`: an attribute that named no method is changed.
-/

namespace Clarify

namespace ClassFile

/-- The new name of the member that an entry of the pool refers to, if it gets another one. -/
def entryTarget? (store : Mapping) (plan : Plan) (c : ClassFile) (index : UInt16) :
    Option String :=
  (c.pool.memberRef? index).bind (Rename.linkTarget? store plan c)

/-- The new name of the method that an attribute names as the one around the class, if it gets
another one. -/
def enclosingTarget? (store : Mapping) (plan : Plan) (c : ClassFile) (a : Attribute) :
    Option String :=
  (c.pool.enclosing? a).bind (Rename.linkTarget? store plan c)

/-- The attribute for the method around the class leads behind the pool. -/
def Dangling (c : ClassFile) (a : Attribute) : Prop :=
  c.pool.text? a.name = some "EnclosingMethod" ∧ ∃ c1 c2 m1 m2, a.info = [c1, c2, m1, m2] ∧
    c.pool.size ≤ (word16 m1 m2).toNat

/-- What becomes of a constant: a member reference keeps its kind and its owner, and has its final
name with the descriptor that it had; if it has no new name it keeps its pair. All others stay. -/
def Becomes (store : Mapping) (plan : Plan) (c : ClassFile) (pool : Pool) (index : UInt16) :
    Constant → Prop
  | .memberRef kind owner pair => ∃ r pair', c.pool.memberRef? index = some r ∧
      pool.get? index = some (.memberRef kind owner pair') ∧
      pool.memberRef? index = some { r with name := Rename.linkName store plan c r } ∧
      (Rename.linkTarget? store plan c r = none → pair' = pair)
  | constant => pool.get? index = some constant

/-- What becomes of an attribute. It changes in its last two bytes only, and only if it names the
method around the class; that method has its final name then. If there is no method with a new name,
it stays, unless it leads behind the pool to a pair that renaming has added. -/
structure AttributeBecomes (store : Mapping) (plan : Plan) (c : ClassFile) (pool : Pool)
    (a a' : Attribute) : Prop where
  name : a'.name = a.name
  info : a'.info.length = a.info.length ∧ a'.info.take 2 = a.info.take 2
  other : c.pool.text? a.name ≠ some "EnclosingMethod" ∨ a.info.length ≠ 4 → a' = a
  method : ∀ r, c.pool.enclosing? a = some r →
    pool.enclosing? a' = some { r with name := Rename.linkName store plan c r }
  changes : c.enclosingTarget? store plan a ≠ none → a' ≠ a
  stays : c.enclosingTarget? store plan a = none → a' = a ∨ c.Dangling a ∧
    ∃ r newName, Rename.IsNew store r.name ∧ Rename.linkTarget? store plan c r = some newName

end ClassFile

namespace Rename

variable {store : Mapping} {plan : Plan} {c : ClassFile} {p q : Pool}

/-! ## The entries of the pool -/

theorem isRenamedOwner_eq (sound : c.Sound) (keeps : c.pool.KeepsNames p) (owner : String) :
    isRenamedOwner plan { c with pool := p } owner = isRenamedOwner plan c owner := by
  have same : ClassFile.className { c with pool := p } = c.className :=
    sound.className_eq keeps rfl
  rw [isRenamedOwner, isRenamedOwner, same]

theorem linkTarget?_eq (sound : c.Sound) (keeps : c.pool.KeepsNames p) :
    linkTarget? store plan { c with pool := p } = linkTarget? store plan c := by
  funext r
  rw [linkTarget?, linkTarget?, isRenamedOwner_eq sound keeps]

/-- The target of a reference of the pool is that of its entry. -/
theorem entryTarget?_eq (sound : c.pool.Sound) {index : UInt16} {kind : RefKind}
    {owner pair : UInt16} (here : c.pool.get? index = some (.memberRef kind owner pair)) :
    c.entryTarget? store plan index =
      referenceTarget? store plan c kind.symbolKind owner pair := by
  obtain ⟨ownerName, name, descriptor, foundOwner, foundPair⟩ := sound.exists_memberRef? here
  have found : c.pool.memberRef? index = some ⟨kind, ownerName, name, descriptor⟩ :=
    Pool.memberRef?_eq_some_iff.2 ⟨owner, pair, here, foundOwner, foundPair⟩
  rw [ClassFile.entryTarget?, found, Option.bind_some]
  exact (referenceTarget?_eq store plan (r := ⟨kind, ownerName, name, descriptor⟩) foundOwner
    foundPair).symm

/-- As many references get a new name as there are entries with one. -/
theorem length_references (sound : c.pool.Sound) :
    (references store plan c).length = (List.range c.pool.size).countP fun k =>
      (c.entryTarget? store plan (UInt16.ofNat k)).isSome := by
  have rows : List.range c.pool.size = c.pool.slots.toList.zipIdx.map Prod.snd := by
    rw [List.zipIdx_map_snd, List.range_eq_range', Array.length_toList, Pool.size]
  rw [references, List.length_filterMap_eq_countP, rows, List.countP_map]
  refine List.countP_congr fun row mem => ?_
  obtain ⟨slot, k⟩ := row
  rw [List.mem_zipIdx_iff_getElem?, Array.getElem?_toList] at mem
  have inside : k < 65536 := Nat.lt_of_lt_of_le (Array.getElem?_eq_some_iff.1 mem).1
    (Nat.le_trans sound.size_le (by decide))
  have here : c.pool.get? (UInt16.ofNat k) = slot := by
    rw [Pool.get?, UInt16.toNat_ofNat_of_lt' inside, mem]
    rfl
  dsimp only [Function.comp_apply]
  split
  · next kind owner pair =>
    rw [Option.isSome_map, entryTarget?_eq sound here]
  · next other =>
    rcases target : c.entryTarget? store plan (UInt16.ofNat k) with _ | newName
    · rfl
    · obtain ⟨r, found, -⟩ := Option.bind_eq_some_iff.1 target
      obtain ⟨owner, pair, isRef, -⟩ := Pool.memberRef?_eq_some_iff.1 found
      exact absurd (here.symm.trans isRef) (other _ _ _)

/-! ## The method around the class -/

/-- What an attribute comes to when it is looked at; the mark tells whether it changes. -/
structure EnclosingStep (store : Mapping) (plan : Plan) (c : ClassFile) (a : Attribute)
    (row : Attribute × Bool) : Prop where
  name : row.1.name = a.name
  info : row.1.info.length = a.info.length ∧ row.1.info.take 2 = a.info.take 2
  other : c.pool.text? a.name ≠ some "EnclosingMethod" ∨ a.info.length ≠ 4 → row.1 = a
  mark : row.2 = (c.enclosingTarget? store plan a).isSome
  changed : row.2 = true ↔ row.1 ≠ a

theorem enclosingTarget?_eq {a : Attribute} {c1 c2 m1 m2 : UInt8}
    (named : c.pool.text? a.name = some "EnclosingMethod") (info : a.info = [c1, c2, m1, m2]) :
    c.enclosingTarget? store plan a =
      referenceTarget? store plan c .method (word16 c1 c2) (word16 m1 m2) := by
  rcases found : c.pool.enclosing? a with _ | r
  · rcases target : referenceTarget? store plan c .method (word16 c1 c2) (word16 m1 m2)
      with _ | newName
    · rw [ClassFile.enclosingTarget?, found, Option.bind_none]
    · obtain ⟨owner, name, descriptor, foundOwner, foundPair, -⟩ :=
        exists_names_of_referenceTarget? target
      have := (enclosing?_eq_some_iff (r := ⟨.method, owner, name, descriptor⟩)).2
        ⟨named, c1, c2, m1, m2, info, foundOwner, foundPair, rfl⟩
      rw [found] at this
      cases this
  · obtain ⟨-, x1, x2, y1, y2, info', owner, pair, kind⟩ := enclosing?_eq_some_iff.1 found
    cases info.symm.trans info'
    rw [ClassFile.enclosingTarget?, found, Option.bind_some,
      ← referenceTarget?_eq store plan owner pair, kind]
    rfl

/-- A pair with another name stands at another index. -/
theorem ne_of_namedLike {index pair : UInt16} {name descriptor newName : String}
    (size : p.size ≤ Pool.capacity) (old : p.nameAndType? index = some (name, descriptor))
    (ne : newName ≠ name) (h : namedLike index newName p = .ok (pair, q)) : pair ≠ index := by
  rintro rfl
  obtain ⟨found, grown⟩ := grown_of_namedLike size old h
  rw [grown.extends'.keepsNames.nameAndType? old] at found
  cases found
  exact ne rfl

theorem enclosingStep_of_enclosing {a : Attribute} {row : Attribute × Bool}
    (zero : c.pool.get? 0 = none) (keeps : c.pool.KeepsNames p) (size : p.size ≤ Pool.capacity)
    (h : enclosing store plan c a p = .ok (row, q)) : EnclosingStep store plan c a row := by
  obtain ⟨rfl, rfl, stays⟩ | ⟨named, c1, c2, m1, m2, newName, pair, info, target, interned, rfl⟩ :=
    enclosing_cases h
  · refine ⟨rfl, ⟨rfl, rfl⟩, fun _ => rfl, ?_, by simp⟩
    rcases target : c.enclosingTarget? store plan a with _ | newName
    · rfl
    · obtain ⟨r, found, moves⟩ := Option.bind_eq_some_iff.1 target
      obtain ⟨named, c1, c2, m1, m2, info, owner, pair, -⟩ := enclosing?_eq_some_iff.1 found
      obtain unnamed | none := stays c1 c2 m1 m2 named info
      · rw [unnamed, Pool.nameAndType?, zero] at pair
        cases pair
      · rw [enclosingTarget?_eq named info, none] at target
        cases target
  · refine ⟨rfl, ⟨by rw [info]; rfl, by rw [info]; rfl⟩, ?_, ?_, ?_⟩
    · rintro (other | other)
      · exact absurd named other
      · rw [info] at other
        exact absurd rfl other
    · rw [enclosingTarget?_eq named info, target]
      rfl
    · obtain ⟨-, name, descriptor, -, old, moves⟩ := exists_names_of_referenceTarget? target
      have ne := ne_of_namedLike size (keeps.nameAndType? old)
        (Plan.target?_eq_some_iff.1 moves).2.2.2 interned
      refine ⟨fun _ same => ne ?_, fun _ => rfl⟩
      have bytes := (congrArg Attribute.info same).trans info
      have words := congrArg (fun row : Bytes => word16 (row.getD 2 0) (row.getD 3 0)) bytes
      exact (word16_be16 pair).symm.trans words

theorem forall₂_mapM_enclosing {attributes : List Attribute} {rows : List (Attribute × Bool)}
    (zero : c.pool.get? 0 = none) (keeps : c.pool.KeepsNames p) (size : p.size ≤ Pool.capacity)
    (h : attributes.mapM (enclosing store plan c) p = .ok (rows, q)) :
    List.Forall₂ (EnclosingStep store plan c) attributes rows := by
  induction attributes generalizing rows p with
  | nil =>
    rw [List.mapM_nil] at h
    obtain ⟨rfl, -⟩ := pure_eq_ok_iff.1 h
    exact .nil
  | cons a attributes ih =>
    obtain ⟨row, p', rest, first, others, rfl⟩ := mapM_cons_eq_ok_iff.1 h
    have grown := grown_of_enclosing keeps size first
    exact .cons (enclosingStep_of_enclosing zero keeps size first)
      (ih (keeps.trans grown.extends'.keepsNames) grown.size_le others)

/-- As many marks are set as attributes change. -/
theorem length_filter_marks {attributes : List Attribute} {rows : List (Attribute × Bool)}
    (h : List.Forall₂ (EnclosingStep store plan c) attributes rows) :
    (rows.filter Prod.snd).length =
      (attributes.zip (rows.map Prod.fst)).countP fun both => both.2 ≠ both.1 := by
  induction h with
  | nil => rfl
  | @cons a row attributes rows step _ ih =>
    rw [List.map_cons, List.zip_cons_cons, List.countP_cons, ← ih]
    rcases mark : row.2
    · have same : ¬row.1 ≠ a := fun ne => by simp [step.changed.2 ne] at mark
      simp [mark, same]
    · simp [mark, step.changed.1 mark]

/-- A method that the attribute names in the larger pool is the one that it named before, or it
leads behind the pool to a new name. -/
theorem dangling_of_enclosing? (enlarged : Pool.Enlarged (IsNew store) c.pool p) (sound : c.Sound)
    {a : Attribute} (mem : a ∈ c.attributes) {r : MemberRef} (found : p.enclosing? a = some r) :
    c.pool.enclosing? a = some r ∨ c.Dangling a ∧ IsNew store r.name := by
  obtain ⟨named, c1, c2, m1, m2, info, owner, pair, kind⟩ := enclosing?_eq_some_iff.1 found
  obtain ⟨bytes, here⟩ := sound.attributeNames a mem
  rw [enlarged.keeps.text? here] at named
  obtain pair | ⟨behind, new⟩ := enlarged.nameAndType? sound.pool pair
  · exact .inl (enclosing?_eq_some_iff.2
      ⟨named, c1, c2, m1, m2, info, enlarged.className? sound.pool owner, pair, kind⟩)
  · exact .inr ⟨⟨named, c1, c2, m1, m2, info, behind⟩, new⟩

theorem attributeBecomes_of_enclosingStep (enlarged : Pool.Enlarged (IsNew store) c.pool p)
    (sound : c.Sound) {a : Attribute} (mem : a ∈ c.attributes) {row : Attribute × Bool}
    (step : EnclosingStep store plan { c with pool := p } a row) {pool : Pool}
    (method : ∀ r, c.pool.enclosing? a = some r →
      pool.enclosing? row.1 = some { r with name := linkName store plan c r }) :
    c.AttributeBecomes store plan pool a row.1 where
  name := step.name
  info := step.info
  other h := by
    obtain ⟨bytes, here⟩ := sound.attributeNames a mem
    refine step.other (h.imp_left fun other => ?_)
    rwa [enlarged.keeps.text? here]
  method := method
  changes some := by
    obtain ⟨newName, target⟩ := Option.ne_none_iff_exists'.1 some
    obtain ⟨r, found, moves⟩ := Option.bind_eq_some_iff.1 target
    refine step.changed.1 (step.mark.trans ?_)
    rw [ClassFile.enclosingTarget?, enclosing?_mono enlarged.keeps.keepsNames found,
      linkTarget?_eq sound enlarged.keeps.keepsNames, Option.bind_some, moves]
    rfl
  stays none := by
    by_cases same : row.1 = a
    · exact .inl same
    have target := step.mark.symm.trans (step.changed.2 same)
    obtain ⟨newName, target⟩ := Option.isSome_iff_exists.1 target
    obtain ⟨r, found, moves⟩ := Option.bind_eq_some_iff.1 target
    rw [linkTarget?_eq sound enlarged.keeps.keepsNames] at moves
    obtain old | ⟨dangling, new⟩ := dangling_of_enclosing? enlarged sound mem found
    · rw [ClassFile.enclosingTarget?, old, Option.bind_some, moves] at none
      cases none
    · exact .inr ⟨dangling, r, newName, new, moves⟩

end Rename

namespace ClassFile

open Rename

variable {c : ClassFile} {store : Mapping} {plan : Plan} {renamed : Renamed} {bytes : Bytes}

/-! ## The renamed class -/

theorem linked?_rename_of_parse (parsed : parse bytes = .ok c)
    (h : c.rename store plan = .ok renamed) {l : Link} {r : MemberRef}
    (found : c.linked? l = some r) :
    renamed.file.linked? l = some { r with name := linkName store plan c r } :=
  linked?_rename_of_isRenamedOwner_eq (wellFormed_of_parse parsed) h found fun _ keeps =>
    isRenamedOwner_eq (parse_eq_ok_iff.1 parsed).1.1 keeps r.owner

/-- What no reference with a new name is in stays where it was. -/
theorem get?_rename (wf : c.WellFormed) (h : c.rename store plan = .ok renamed) {index : UInt16}
    {constant : Constant} (here : c.pool.get? index = some constant)
    (other : ∀ r ∈ references store plan c, index ≠ r.index) :
    renamed.file.pool.get? index = some constant := by
  obtain ⟨-, ⟨p, q, grown, -, grown', -, elsewhere⟩, -⟩ := rename_spec wf h
  exact grown'.extends' _ _ (elsewhere index constant other (grown.extends' _ _ here))

/-- What becomes of the constants of the pool. -/
theorem becomes_rename (parsed : parse bytes = .ok c) (h : c.rename store plan = .ok renamed)
    {index : UInt16} {constant : Constant} (here : c.pool.get? index = some constant) :
    c.Becomes store plan renamed.file.pool index constant := by
  have wf := wellFormed_of_parse parsed
  have sound := (parse_eq_ok_iff.1 parsed).1.1
  have enlarged := (stable_enlarged sound.pool.size_le).rename (.refl sound.pool.size_le) h
  cases constant with
  | memberRef kind owner pair =>
    obtain ⟨ownerName, name, descriptor, foundOwner, foundPair⟩ := sound.pool.exists_memberRef? here
    have found : c.pool.memberRef? index = some ⟨kind, ownerName, name, descriptor⟩ :=
      Pool.memberRef?_eq_some_iff.2 ⟨owner, pair, here, foundOwner, foundPair⟩
    obtain ⟨pair', here'⟩ := enlarged.keeps.memberRef here
    refine ⟨_, pair', found, here', linked?_rename_of_parse parsed h (l := .entry index) found,
      fun still => ?_⟩
    have same := get?_rename wf h here fun r mem at' => ?_
    · rw [here'] at same
      cases same
      rfl
    · obtain ⟨isRef, moves⟩ := (mem_references_iff wf.size_le).1 mem
      rw [← at'] at isRef
      rw [← entryTarget?_eq sound.pool isRef, entryTarget?, found, Option.bind_some, still] at moves
      cases moves
  | _ =>
    refine get?_rename wf h here fun r mem at' => ?_
    have isRef := ((mem_references_iff wf.size_le).1 mem).1
    rw [← at', here] at isRef
    cases isRef

/-- What becomes of the attributes, and how many of them change. -/
theorem attributeBecomes_rename (parsed : parse bytes = .ok c)
    (h : c.rename store plan = .ok renamed) :
    List.Forall₂ (AttributeBecomes store plan c renamed.file.pool) c.attributes
      renamed.file.attributes ∧
    renamed.references = (references store plan c).length +
      (c.attributes.zip renamed.file.attributes).countP fun both => both.2 ≠ both.1 := by
  have sound := (parse_eq_ok_iff.1 parsed).1.1
  have stable : Stable (Pool.Enlarged (IsNew store) c.pool) store plan c :=
    stable_enlarged sound.pool.size_le
  obtain ⟨fields, methods, rows, p₁, p₂, p₃, u, first, second, third, last, -, -, attributes, -,
    count⟩ := rename_eq_ok h
  obtain ⟨evolved, -, -⟩ := sound.evolved_members first second third
  have keeps := evolved.keeps.keepsNames
  have enlarged : Pool.Enlarged (IsNew store) c.pool p₃ :=
    preserves_forM stable.repoint _ _ _ third
      (preserves_mapM (stable.declaration .method) _ _ _ _ second
        (preserves_mapM (stable.declaration .field) _ _ _ _ first (.refl sound.pool.size_le)))
  have steps := forall₂_mapM_enclosing (c := { c with pool := p₃ }) evolved.sound.get?_zero
    (.refl _) evolved.sound.size_le last
  refine ⟨?_, ?_⟩
  · rw [attributes, List.forall₂_map_right_iff, List.forall₂_iff_get]
    obtain ⟨length, each⟩ := List.forall₂_iff_get.1 steps
    refine ⟨length, fun k inside inside' => ?_⟩
    refine attributeBecomes_of_enclosingStep enlarged sound (List.get_mem ..)
      (each k inside inside') fun r found => ?_
    have now := linked?_rename_of_parse parsed h (l := .enclosing k)
      (Option.bind_eq_some_iff.2 ⟨_, List.getElem?_eq_getElem inside, found⟩)
    rwa [linked?, attributes, List.getElem?_map, List.getElem?_eq_getElem inside'] at now
  · rw [count, attributes, length_filter_marks steps]

/-- Renaming changes the names of declared members and of references as the plan has it, and nothing
else; it tells the declarations in their order, and counts the references. Only an attribute that
leads behind the pool can change although it names no method. -/
theorem renames_exactly (parsed : parse bytes = .ok c) (h : c.rename store plan = .ok renamed) :
    renamed.file = { c with
      pool := renamed.file.pool
      fields := renamed.file.fields
      methods := renamed.file.methods
      attributes := renamed.file.attributes } ∧
    (∀ kind, List.Forall₂ (OnlyRenamed store plan c kind renamed.file.pool)
      (c.membersOf kind).toList (renamed.file.membersOf kind).toList) ∧
    (∀ index constant, c.pool.get? index = some constant →
      c.Becomes store plan renamed.file.pool index constant) ∧
    List.Forall₂ (AttributeBecomes store plan c renamed.file.pool) c.attributes
      renamed.file.attributes ∧
    renamed.declarations = c.fields.toList.filterMap (renaming? store plan c .field) ++
      c.methods.toList.filterMap (renaming? store plan c .method) ∧
    renamed.references =
      ((List.range c.pool.size).countP fun k =>
        (c.entryTarget? store plan (UInt16.ofNat k)).isSome) +
      (c.attributes.zip renamed.file.attributes).countP fun both => both.2 ≠ both.1 := by
  obtain ⟨attributes, count⟩ := attributeBecomes_rename parsed h
  rw [length_references (parse_eq_ok_iff.1 parsed).1.1.pool] at count
  exact ⟨file_rename h,
    fun kind => onlyRenamed_rename (wellFormed_of_parse parsed) h kind (.refl _),
    fun _ _ here => becomes_rename parsed h here, attributes, (rename_rows h).2, count⟩

/-! ### A class in a method -/

/-- A class in a method of its own, whose name and descriptor stand at an index. -/
def enclosed (pair : UInt8) : ClassFile :=
  { sample [3] with
    pool := ⟨(sample [3]).pool.slots.push (some (.utf8 (ModifiedUtf8.encode "EnclosingMethod")))⟩
    attributes := [⟨8, [0, 2, 0, pair]⟩] }

/-- A new name that is the old one of another name. -/
def chainedStore : Mapping := (Mapping.empty.override "a" "b").override "b" "c"

def enclosedPlan : Plan := { classes := Std.TreeSet.ofList ["A"], blocked := ∅ }

theorem parse_enclosed : parse (enclosed 5).write = .ok (enclosed 5) ∧
    parse (enclosed 9).write = .ok (enclosed 9) :=
  ⟨Except.eq_ok_of_toOption (by decide +kernel), Except.eq_ok_of_toOption (by decide +kernel)⟩

/-- The reference and the method around the class get their new names. -/
theorem renames_exactly_enclosed : parse (enclosed 5).write = .ok (enclosed 5) ∧
    ∃ renamed, (enclosed 5).rename chainedStore enclosedPlan = .ok renamed ∧
      List.Forall₂ (AttributeBecomes chainedStore enclosedPlan (enclosed 5) renamed.file.pool)
        (enclosed 5).attributes renamed.file.attributes ∧
      renamed.declarations = [⟨.method, "a", "b", "()V"⟩] ∧ renamed.references = 2 := by
  obtain ⟨renamed, ok, attributes⟩ := exists_ok_of_map_toOption
    (f := fun r : Renamed => r.file.attributes) (b := [⟨8, [0, 2, 0, 9]⟩])
    (show ((enclosed 5).rename chainedStore enclosedPlan).toOption.map _ = _ by decide +kernel)
  obtain ⟨-, -, -, becomes, declarations, count⟩ := renames_exactly parse_enclosed.1 ok
  refine ⟨parse_enclosed.1, renamed, ok, becomes, ?_, ?_⟩
  · rw [declarations]
    decide +kernel
  · rw [count, attributes]
    decide +kernel

/-- The attribute names no method, but it changes and is counted: renaming has added a pair at its
index, and the new name in it is renamed once more. -/
theorem exists_renamed_twice : ∃ (bytes : Bytes) (c : ClassFile) (store : Mapping) (plan : Plan)
    (renamed : Renamed) (a a' : Attribute), parse bytes = .ok c ∧
      c.rename store plan = .ok renamed ∧ c.attributes = [a] ∧ a.info.length = 4 ∧
      c.pool.enclosing? a = none ∧ renamed.file.attributes = [a'] ∧ a' ≠ a ∧
      ((List.range c.pool.size).countP fun k =>
        (c.entryTarget? store plan (UInt16.ofNat k)).isSome) = 1 ∧ renamed.references = 2 := by
  obtain ⟨renamed, ok, changed⟩ := exists_ok_of_map_toOption
    (f := fun r : Renamed => (r.file.attributes, r.references))
    (b := ([⟨8, [0, 2, 0, 11]⟩], 2))
    (show ((enclosed 9).rename chainedStore enclosedPlan).toOption.map _ = _ by decide +kernel)
  obtain ⟨attributes, references⟩ := Prod.mk.inj changed
  exact ⟨(enclosed 9).write, enclosed 9, chainedStore, enclosedPlan, renamed, ⟨8, [0, 2, 0, 9]⟩,
    ⟨8, [0, 2, 0, 11]⟩, parse_enclosed.2, ok, rfl, rfl, by decide +kernel, attributes,
    by decide, by decide +kernel, references⟩

end ClassFile

end Clarify
