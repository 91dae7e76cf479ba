import Clarify.Proofs.Unit.Passes

/-!
# Methods removed as suspects

Results:
* `removed_as_suspect_iff`: which methods of a class are removed as suspects.
-/

namespace Clarify

/-! ## What renaming tells about methods -/

namespace Rename

variable {α β γ : Type} {p q : Pool}

/-- What comes of a row of steps, seen through a view under which each result looks like its
item. -/
theorem map_eq_of_mapM (view : α → γ) (view' : β → γ) {f : α → PoolStep β}
    (same : ∀ a p b q, f a p = .ok (b, q) → view' b = view a) {xs : List α} {ys : List β}
    (h : xs.mapM f p = .ok (ys, q)) : ys.map view' = xs.map view := by
  induction xs generalizing ys p with
  | nil =>
    rw [List.mapM_nil] at h
    obtain ⟨rfl, -⟩ := pure_eq_ok_iff.1 h
    rfl
  | cons x xs ih =>
    obtain ⟨y, p', ys, first, rest, rfl⟩ := mapM_cons_eq_ok_iff.1 h
    rw [List.map_cons, List.map_cons, ih rest, same x p y p' first]

/-- What is told about a member that is renamed. -/
def renaming? (store : Mapping) (plan : Plan) (c : ClassFile) (kind : SymbolKind) (m : Member) :
    Option Renaming :=
  (plan.target? store (c.symbolOf kind m)).map fun newName =>
    { kind, oldName := c.nameOf m, newName, descriptor := c.descriptorOf m }

theorem declaration_eq_ok {store : Mapping} {plan : Plan} {c : ClassFile} {kind : SymbolKind}
    {m : Member} {row : Member × Option Renaming}
    (h : declaration store plan c kind m p = .ok (row, q)) :
    (row.1.access, row.2) = (m.access, renaming? store plan c kind m) := by
  unfold renaming?
  rcases moves : plan.target? store (c.symbolOf kind m) with _ | newName
  · simp only [declaration, moves] at h
    obtain ⟨rfl, -⟩ := pure_eq_ok_iff.1 h
    rfl
  · simp only [declaration, moves] at h
    obtain ⟨index, q', -, h⟩ := bind_eq_ok_iff.1 h
    obtain ⟨rfl, -⟩ := pure_eq_ok_iff.1 h
    rfl

end Rename

namespace ClassFile

open Rename

variable {c d : ClassFile} {store : Mapping} {plan : Plan} {renamed : Renamed}

/-- The access flags of members stay, and each renamed declaration is told. -/
theorem rename_rows (h : c.rename store plan = .ok renamed) :
    (∀ kind, (renamed.file.membersOf kind).toList.map Member.access =
      (c.membersOf kind).toList.map Member.access) ∧
      renamed.declarations = c.fields.toList.filterMap (renaming? store plan c .field) ++
        c.methods.toList.filterMap (renaming? store plan c .method) := by
  obtain ⟨fields, methods, -, p₁, p₂, -, -, first, second, -, -, isFields, isMethods, -,
    told, -⟩ := rename_eq_ok h
  have rows {kind : SymbolKind} {members : List Member} {rows : List (Member × Option Renaming)}
      {p q : Pool} (h : members.mapM (declaration store plan c kind) p = .ok (rows, q)) :
      rows.map (fun row => (row.1.access, row.2)) =
        members.map fun m => (m.access, renaming? store plan c kind m) :=
    map_eq_of_mapM (fun m => (m.access, renaming? store plan c kind m))
      (fun row => (row.1.access, row.2)) (fun _ _ _ _ step => declaration_eq_ok step) h
  have flags {kind : SymbolKind} {members : List Member}
      {rows : List (Member × Option Renaming)}
      (h : rows.map (fun row => (row.1.access, row.2)) =
        members.map fun m => (m.access, renaming? store plan c kind m)) :
      (rows.map Prod.fst).map Member.access = members.map Member.access := by
    have flags := congrArg (List.map Prod.fst) h
    rw [List.map_map, List.map_map] at flags
    rw [List.map_map]
    exact flags
  have renamings {kind : SymbolKind} {members : List Member}
      {rows : List (Member × Option Renaming)}
      (h : rows.map (fun row => (row.1.access, row.2)) =
        members.map fun m => (m.access, renaming? store plan c kind m)) :
      rows.filterMap Prod.snd = members.filterMap (renaming? store plan c kind) := by
    have := congrArg (List.filterMap Prod.snd) h
    rwa [List.filterMap_map, List.filterMap_map] at this
  refine ⟨fun kind => ?_, ?_⟩
  · cases kind with
    | «class» => rfl
    | field => rw [membersOf, isFields, flags (rows first), membersOf]
    | method => rw [membersOf, isMethods, flags (rows second), membersOf]
  · rw [told, List.filterMap_append, renamings (rows first), renamings (rows second)]

end ClassFile

/-! ## Names before renaming -/

namespace Clarified

/-- The names that the methods renamed to `name` had before, in declaration order. -/
def formerNamesOf (ctx : PassContext) (c : ClassFile) (name : String) : List String :=
  (c.methods.toList.filter fun m =>
    ctx.plan.target? ctx.store (c.symbolOf .method m) = some name).map c.nameOf

/-- Whether a renaming gives the name to a method. -/
def gives (name : String) (r : Renaming) : Bool := r.kind = .method ∧ r.newName = name

theorem gives_iff {name : String} {r : Renaming} :
    gives name r = true ↔ r.kind = .method ∧ r.newName = name :=
  decide_eq_true_iff

theorem getElem?_formerNames (declarations : List Renaming) (name : String) :
    (formerNames declarations)[name]? =
      ((declarations.filter (gives name)).map Renaming.oldName).getLast? := by
  have fold (names : Std.TreeMap String String) :
      (declarations.foldl (fun names r =>
        if r.kind = .method then names.insert r.newName r.oldName else names) names)[name]? =
        ((declarations.filter (gives name)).map Renaming.oldName).getLast?.or names[name]? := by
    induction declarations generalizing names with
    | nil => rfl
    | cons r declarations ih =>
      rw [List.foldl_cons, ih]
      by_cases counts : gives name r = true
      · obtain ⟨kind, rfl⟩ := gives_iff.1 counts
        rw [List.filter_cons_of_pos counts, List.map_cons, List.getLast?_cons, if_pos kind,
          Std.TreeMap.getElem?_insert_self]
        generalize ((declarations.filter _).map Renaming.oldName).getLast? = last
        cases last <;> rfl
      · rw [List.filter_cons_of_neg counts]
        split
        · next kind =>
          have ne : r.newName ≠ name := fun same => counts (gives_iff.2 ⟨kind, same⟩)
          rw [Std.TreeMap.getElem?_insert, if_neg (by rwa [Std.compare_eq_iff_eq])]
        · rfl
  rw [formerNames, fold, Std.TreeMap.getElem?_emptyc, Option.or_none]

/-- Of several names that methods with the same new name had before, the last one counts. -/
theorem getElem?_formerNames_rename {ctx : PassContext} {c : ClassFile} {renamed : Renamed}
    (h : c.rename ctx.store ctx.plan = .ok renamed) (name : String) :
    (formerNames renamed.declarations)[name]? = (formerNamesOf ctx c name).getLast? := by
  have field (m : Member) :
      ((Rename.renaming? ctx.store ctx.plan c .field m).filter (gives name)).map
        Renaming.oldName = none := by
    unfold Rename.renaming?
    cases ctx.plan.target? ctx.store (c.symbolOf .field m) <;> rfl
  have method (m : Member) :
      ((Rename.renaming? ctx.store ctx.plan c .method m).filter (gives name)).map
        Renaming.oldName =
        if ctx.plan.target? ctx.store (c.symbolOf .method m) = some name then some (c.nameOf m)
        else none := by
    unfold Rename.renaming?
    rcases ctx.plan.target? ctx.store (c.symbolOf .method m) with _ | newName
    · rfl
    · by_cases same : newName = name
      · subst same
        have given : gives newName ⟨.method, c.nameOf m, newName, c.descriptorOf m⟩ = true :=
          gives_iff.2 ⟨rfl, rfl⟩
        rw [if_pos rfl, Option.map_some, Option.filter_some, if_pos given]
        rfl
      · simp [gives, same]
  rw [getElem?_formerNames, (ClassFile.rename_rows h).2, List.filter_append,
    List.filter_filterMap, List.filter_filterMap, List.map_append, List.map_filterMap,
    List.map_filterMap, funext field, funext method, formerNamesOf, ← List.filterMap_eq_map,
    List.filterMap_filter]
  have none : c.fields.toList.filterMap (fun _ => (none : Option String)) = [] :=
    List.filterMap_eq_nil_iff.2 fun _ _ => rfl
  simp only [none, List.nil_append, decide_eq_true_eq]
  rfl

end Clarified

/-! ## Names after all passes -/

namespace ClassFile

variable {c d e : ClassFile} {m : Member}

theorem symbolOf_eq_of_keeps (keeps : d.pool.KeepsNames e.pool) (sound : m.Sound d.pool)
    (kind : SymbolKind) : e.symbolOf kind m = d.symbolOf kind m := by
  have text {index : UInt16} (h : ∃ bytes, d.pool.get? index = some (.utf8 bytes)) :
      e.pool.text? index = d.pool.text? index := by
    obtain ⟨bytes, found⟩ := h
    rw [Pool.text?, Pool.text?, Pool.rawText?, Pool.rawText?, found, keeps index _ found rfl]
  rw [symbolOf, symbolOf, nameOf, nameOf, descriptorOf, descriptorOf, text sound.name,
    text sound.descriptor]

/-- A class with other bodies has the members that it had. -/
theorem Rebodied.heads_membersOf (h : Rebodied c d) (kind : SymbolKind) :
    (d.membersOf kind).toList.map Member.head = (c.membersOf kind).toList.map Member.head := by
  cases kind with
  | «class» => rfl
  | field =>
    rw [h.frame]
    rfl
  | method => exact h.heads

theorem Rebodied.symbolsOf (h : Rebodied c d) (keeps : c.pool.KeepsNames d.pool) (sound : c.Sound)
    (kind : SymbolKind) : d.symbolsOf kind = c.symbolsOf kind := by
  have heads {c : ClassFile} (members : List Member) :
      members.map (c.symbolOf kind) = (members.map Member.head).map (c.symbolOf kind) := by
    rw [List.map_map]
    rfl
  rw [ClassFile.symbolsOf, ClassFile.symbolsOf, heads, h.heads_membersOf, ← heads]
  refine List.map_congr_left fun m mem => symbolOf_eq_of_keeps keeps ?_ kind
  cases kind with
  | «class» => cases mem
  | field => exact sound.fields.2 m (Array.mem_toList_iff.1 mem)
  | method => exact sound.methods.2 m (Array.mem_toList_iff.1 mem)

theorem Rebodied.access (h : Rebodied c d) (kind : SymbolKind) :
    (d.membersOf kind).toList.map Member.access = (c.membersOf kind).toList.map Member.access := by
  have heads := congrArg (List.map Member.access) (h.heads_membersOf kind)
  rwa [List.map_map, List.map_map] at heads

end ClassFile

namespace Clarified

variable {ctx : PassContext} {c simple : ClassFile} {renamed : Renamed} {counts : FlowCounts}

/-- What names are made of stays where it is while literals are recovered and bodies simplified. -/
theorem keepsNames_of_simplified {d : ClassFile} (sound : d.Sound)
    (simplified : simplifyAll d.recoverLiterals.1 = .ok (simple, counts)) :
    d.pool.KeepsNames simple.pool := by
  obtain ⟨rows, -, rfl⟩ := simplifyAll_eq_ok simplified
  exact (Literal.standing_recoverLiterals sound).keeps.blank.keepsNames

/-- After a class was renamed its bodies change, but not what its members are called. -/
theorem names_of_simplified {bytes : Bytes} (parsed : ClassFile.parse bytes = .ok c)
    (rename : c.rename ctx.store ctx.plan = .ok renamed)
    (simplified : simplifyAll renamed.file.recoverLiterals.1 = .ok (simple, counts)) :
    simple.className = c.className ∧ ∀ kind,
      simple.symbolsOf kind = (c.symbolsOf kind).map (ctx.plan.finalSymbol ctx.store) ∧
      (simple.membersOf kind).toList.map Member.access =
        (c.membersOf kind).toList.map Member.access := by
  have wf := ClassFile.wellFormed_of_parse parsed
  have sound := (ClassFile.parse_eq_ok_iff.1 parsed).1.1
  have renamedSound := sound.rename rename
  have rebodied := (Literal.rebodied_recoverLiterals renamed.file).trans
    (rebodied_simplifyAll simplified)
  have keeps := keepsNames_of_simplified renamedSound simplified
  have keepsAll : c.pool.KeepsNames simple.pool := by
    obtain ⟨-, ⟨p, q, grown, kept, grown', -⟩, -⟩ := ClassFile.rename_spec wf rename
    exact ((grown.extends'.keepsNames.trans kept).trans grown'.extends'.keepsNames).trans keeps
  refine ⟨?_, fun kind => ⟨?_, ?_⟩⟩
  · refine sound.className_eq keepsAll ?_
    rw [rebodied.frame, ClassFile.file_rename rename]
  · rw [rebodied.symbolsOf keeps renamedSound kind, ClassFile.symbolsOf_rename wf rename]
  · exact (rebodied.access kind).trans ((ClassFile.rename_rows rename).1 kind)

/-- Where no method is renamed to the final name of a method, that method keeps its name. -/
theorem name_of_formerNamesOf_eq_nil {k : Nat} {m : Member} {s : Symbol}
    (here : c.methods[k]? = some m)
    (final : s = ctx.plan.finalSymbol ctx.store (c.symbolOf .method m))
    (none : formerNamesOf ctx c s.name = []) : s.name = c.nameOf m := by
  rcases moves : ctx.plan.target? ctx.store (c.symbolOf .method m) with _ | newName
  · rw [final]
    exact Rename.finalName_of_target?_eq_none moves
  · have name : s.name = newName := by
      rw [final]
      exact Rename.finalName_of_target? moves
    rw [formerNamesOf, List.map_eq_nil_iff, List.filter_eq_nil_iff] at none
    have mem : m ∈ c.methods.toList := Array.mem_toList_iff.2 (Array.mem_of_getElem? here)
    exact absurd (decide_eq_true (moves.trans (congrArg some name.symm))) (none m mem)

/-- The method of the class after the passes that stands where a method stood before. -/
theorem exists_method_of_simplified {k : Nat} {m : Member}
    (symbols : simple.symbolsOf .method =
      (c.symbolsOf .method).map (ctx.plan.finalSymbol ctx.store))
    (access : simple.methods.toList.map Member.access = c.methods.toList.map Member.access)
    (here : c.methods[k]? = some m) :
    ∃ m', simple.methods[k]? = some m' ∧
      simple.symbolOf .method m' = ctx.plan.finalSymbol ctx.store (c.symbolOf .method m) ∧
      m'.isNative = m.isNative := by
  have names := congrArg (·[k]?) symbols
  have flags := congrArg (·[k]?) access
  simp only [ClassFile.symbolsOf, ClassFile.membersOf, List.getElem?_map, Array.getElem?_toList,
    here, Option.map_some] at names flags
  obtain ⟨m', here', symbol⟩ := Option.map_eq_some_iff.1 names
  rw [here', Option.map_some, Option.some.injEq] at flags
  refine ⟨m', here', symbol, ?_⟩
  rw [Member.isNative, Member.isNative, flags]

end Clarified

/-! ## The fates of methods -/

namespace Junk

variable (c : ClassFile) (suspects : Suspects) (formerNames : Std.TreeMap String String)
  (spent : List Symbol)

theorem symbolsOf_removeJunk : (c.removeJunk suspects formerNames spent).1.symbolsOf .method =
    (((c.symbolsOf .method).zip (fates c (callsOf c) suspects formerNames).toList).filter
      fun row => row.2.isNone).map Prod.fst := by
  rw [(removeJunk_eq ..).1]
  show (((fated c suspects formerNames).filter fun row => row.2.isNone).map Prod.fst).map
    (c.symbolOf .method) = _
  rw [ClassFile.symbolsOf, List.zip_map_left, List.filter_map, List.map_map, List.map_map]
  rfl

theorem removed_removeJunk : (c.removeJunk suspects formerNames spent).2.removed =
    ((c.symbolsOf .method).zip (fates c (callsOf c) suspects formerNames).toList).filterMap
      fun (s, fate) => fate.map fun reason =>
        { label := c.className ++ "." ++ s.name ++ s.descriptor
          formerName := formerNames[s.name]?, reason } := by
  rw [(removeJunk_eq ..).2, ClassFile.symbolsOf, List.zip_map_left, List.filterMap_map]
  rfl

end Junk

namespace Clarified

variable {ctx : PassContext} {c : ClassFile}

/-- Whether nothing keeps a method from being removed that ends with the symbol: it is not native,
and neither the virtual machine nor the serialization calls it. -/
def mayGo (m : Member) (s : Symbol) : Bool :=
  !m.isNative && !Name.isSpecial s && !Name.isSerializationHook s.name s.descriptor

/-- A method is removed as a suspect for its own symbol and the former name that is on record. -/
theorem fates_suspect_iff_of_symbol (suspects : Suspects)
    (formerNames : Std.TreeMap String String) {d : ClassFile} {m m' : Member} {s : Symbol} {k : Nat}
    (here : d.methods[k]? = some m') (symbol : d.symbolOf .method m' = s)
    (native : m'.isNative = m.isNative) :
    (Junk.fates d (Junk.callsOf d) suspects formerNames)[k]? = some (some .suspect) ↔
      mayGo m s = true ∧ (suspects.contains s.name = true ∨
        ∃ old, formerNames[s.name]? = some old ∧ suspects.contains old = true) := by
  rw [Junk.fates_suspect_iff here, and_comm]
  refine and_congr ?_ ?_
  · rw [Junk.isRemovable, symbol, native]
    rfl
  · rw [Junk.isSuspect, show d.nameOf m' = s.name from congrArg Symbol.name symbol, Bool.or_eq_true]
    cases formerNames[s.name]? <;> simp

/-- A method is removed as a suspect exactly if nothing keeps it and one of two names is suspect:
its name after renaming, or the name that the last method with this new name had before. For a
method that shares its new name with no method that was called otherwise before, that is its own
name. -/
theorem removed_as_suspect_iff {bytes : Bytes} {r : Clarified}
    (parsed : ClassFile.parse bytes = .ok c) (clarified : ofClass ctx c = .ok r) :
    ∃ fates : List (Option RemovalReason), fates.length = c.methods.size ∧
      r.file.symbolsOf .method = ((((c.symbolsOf .method).map
        (ctx.plan.finalSymbol ctx.store)).zip fates).filter fun row => row.2.isNone).map Prod.fst ∧
      r.junk.removed = (((c.symbolsOf .method).map (ctx.plan.finalSymbol ctx.store)).zip
        fates).filterMap (fun (s, fate) => fate.map fun reason =>
          { label := c.className ++ "." ++ s.name ++ s.descriptor
            formerName := (formerNamesOf ctx c s.name).getLast?, reason }) ∧
      ∀ (k : Nat) (m : Member) (s : Symbol), c.methods[k]? = some m →
        s = ctx.plan.finalSymbol ctx.store (c.symbolOf .method m) →
        (fates[k]? = some (some .suspect) ↔ mayGo m s = true ∧
          (ctx.suspects.contains s.name = true ∨
            ∃ old, (formerNamesOf ctx c s.name).getLast? = some old ∧
              ctx.suspects.contains old = true)) ∧
        ((∀ old ∈ formerNamesOf ctx c s.name, old = c.nameOf m) →
          (fates[k]? = some (some .suspect) ↔ mayGo m s = true ∧
            (ctx.suspects.contains s.name = true ∨
              ctx.suspects.contains (c.nameOf m) = true))) := by
  obtain ⟨renamed, simple, counts, rename, simplified, -, removed⟩ := ofClass_eq_ok clarified
  obtain ⟨className, members⟩ := names_of_simplified parsed rename simplified
  obtain ⟨symbols, access⟩ := members .method
  have former (name : String) := getElem?_formerNames_rename rename name
  generalize formerNames renamed.declarations = names at removed former
  rw [show r.file = _ from congrArg Prod.fst removed,
    show r.junk = _ from congrArg Prod.snd removed, Junk.symbolsOf_removeJunk,
    Junk.removed_removeJunk, ← symbols, className]
  simp only [former]
  refine ⟨(Junk.fates simple (Junk.callsOf simple) ctx.suspects names).toList, ?_, rfl, rfl,
    fun k m s here final => ?_⟩
  · rw [Array.length_toList, Junk.size_fates]
    simpa [ClassFile.membersOf] using congrArg List.length access
  · obtain ⟨m', here', symbol, native⟩ := exists_method_of_simplified symbols access here
    have suspect := fates_suspect_iff_of_symbol ctx.suspects names here'
      (symbol.trans final.symm) native
    rw [former] at suspect
    rw [Array.getElem?_toList]
    refine ⟨suspect, fun own => suspect.trans (and_congr_right fun _ => ?_)⟩
    rcases last : (formerNamesOf ctx c s.name).getLast? with _ | old
    · rw [name_of_formerNamesOf_eq_nil here final (List.getLast?_eq_none_iff.1 last)]
      simp
    · rw [own old (List.mem_of_getLast? last)]
      simp

/-- Two methods with different descriptors. -/
def overloads : ClassFile where
  minorVersion := 0
  majorVersion := 52
  pool := ⟨#[none, some (.utf8 [0x41]), some (.classRef 1), some (.utf8 [0x61]),
    some (.utf8 [0x28, 0x29, 0x56]), some (.utf8 [0x62]), some (.utf8 [0x28, 0x49, 0x29, 0x56])]⟩
  access := Access.public
  thisClass := 2
  superClass := 0
  interfaces := []
  fields := #[]
  methods := #[⟨Access.public, 3, 4, []⟩, ⟨Access.public, 5, 6, []⟩]
  attributes := []

theorem parse_overloads : ClassFile.parse overloads.write = .ok overloads :=
  Except.eq_ok_of_toOption (by decide +kernel)

/-- Both methods get the same name, and one of them is suspect under the name it had. -/
def overloadsContext : PassContext where
  store := (Mapping.empty.override "a" "x").override "b" "x"
  plan := { classes := Std.TreeSet.ofList ["A"], blocked := ∅ }
  suspects := Suspects.empty.insert "b"

/-- Either method is taken for the suspect. -/
theorem removed_as_suspect_overloads : ∃ r, ofClass overloadsContext overloads = .ok r ∧
    ∃ fates : List (Option RemovalReason), fates.length = 2 ∧
      r.file.symbolsOf .method = ((((overloads.symbolsOf .method).map
        (overloadsContext.plan.finalSymbol overloadsContext.store)).zip fates).filter
          fun row => row.2.isNone).map Prod.fst ∧
      fates[0]? = some (some .suspect) ∧ fates[1]? = some (some .suspect) := by
  obtain ⟨r, clarified, -⟩ := ClassFile.exists_ok_of_map_toOption (f := fun _ => ()) (b := ())
    (show (ofClass overloadsContext overloads).toOption.map _ = _ by decide +kernel)
  obtain ⟨fates, length, left, -, each⟩ := removed_as_suspect_iff parse_overloads clarified
  refine ⟨r, clarified, fates, length, left, ?_, ?_⟩
  · refine (each 0 ⟨Access.public, 3, 4, []⟩ ⟨.method, "x", "()V"⟩ rfl (by decide +kernel)).1.2
      ⟨by decide +kernel, .inr ⟨"b", by decide +kernel, by decide +kernel⟩⟩
  · refine (each 1 ⟨Access.public, 5, 6, []⟩ ⟨.method, "x", "(I)V"⟩ rfl (by decide +kernel)).1.2
      ⟨by decide +kernel, .inr ⟨"b", by decide +kernel, by decide +kernel⟩⟩

/-- A method neither name of which is suspect is removed as a suspect, since a method with another
descriptor that gets the same name was suspect before. -/
theorem exists_removed_unsuspected : ∃ (bytes : Bytes) (c : ClassFile) (ctx : PassContext)
    (r : Clarified) (k : Nat) (m : Member) (s : Symbol), ClassFile.parse bytes = .ok c ∧
      ofClass ctx c = .ok r ∧ c.methods[k]? = some m ∧
      s = ctx.plan.finalSymbol ctx.store (c.symbolOf .method m) ∧
      ctx.suspects.contains s.name = false ∧ ctx.suspects.contains (c.nameOf m) = false ∧
      ⟨"A." ++ s.name ++ s.descriptor, some "b", .suspect⟩ ∈ r.junk.removed ∧
      s ∉ r.file.symbolsOf .method := by
  obtain ⟨r, clarified, facts⟩ := ClassFile.exists_ok_of_map_toOption
    (f := fun r : Clarified => (r.junk.removed, r.file.symbolsOf .method))
    (b := ([⟨"A.x()V", some "b", .suspect⟩, ⟨"A.x(I)V", some "b", .suspect⟩], []))
    (show (ofClass overloadsContext overloads).toOption.map _ = _ by decide +kernel)
  obtain ⟨removed, left⟩ := Prod.mk.inj facts
  refine ⟨overloads.write, overloads, overloadsContext, r, 0, ⟨Access.public, 3, 4, []⟩,
    ⟨.method, "x", "()V"⟩, parse_overloads, clarified, rfl, by decide +kernel, by decide +kernel,
    by decide +kernel, ?_, ?_⟩
  · rw [removed]
    exact .head _
  · rw [left]
    exact List.not_mem_nil

end Clarified

end Clarify
