import Clarify.Proofs.Literal.Steps
import Clarify.Proofs.Unit.Callers
import Clarify.Proofs.Unit.Success
import Clarify.Proofs.Unit.Suspects
import Mathlib.Data.List.Forall2

/-!
# Native methods

A native method has no body in the class file that counts, so the passes leave it alone: its
literals are not looked at, its flow of control is not simplified, and it is no junk. It takes part
in the renaming like any other method. The methods around it do change, and are addressed by their
positions; so each pass is shown to reach no native method.

Results:
* `onlyRenamed_rename`: renaming a class changes nothing of a member but its name.
* `natives_recoverLiterals`, `natives_simplifyAll`, `natives_removeJunk`: the other passes leave the
  row of native methods as it is.
* `natives_clarifyUnit`: a clarified class has the native methods that it had, under their final
  names.
-/

namespace Clarify

/-- The native methods of a class, in declaration order. -/
def ClassFile.natives (c : ClassFile) : List Member := c.methods.toList.filter Member.isNative

/-! ## Renaming -/

/-- The second member is the first one under its final name, which stands in the pool; a member that
gets no other name keeps the index of its own. -/
structure OnlyRenamed (store : Mapping) (plan : Plan) (c : ClassFile) (kind : SymbolKind)
    (pool : Pool) (m m' : Member) : Prop where
  access : m'.access = m.access
  descriptor : m'.descriptor = m.descriptor
  descriptorText : pool.rawText? m'.descriptor = c.pool.rawText? m.descriptor
  attributes : m'.attributes = m.attributes
  name : plan.target? store (c.symbolOf kind m) = none → m'.name = m.name
  nameText : pool.rawText? m'.name =
    ((plan.target? store (c.symbolOf kind m)).map ModifiedUtf8.encode).or (c.pool.rawText? m.name)

theorem OnlyRenamed.isNative {store : Mapping} {plan : Plan} {c : ClassFile} {kind : SymbolKind}
    {pool : Pool} {m m' : Member} (h : OnlyRenamed store plan c kind pool m m') :
    m'.isNative = m.isNative := by
  rw [Member.isNative, Member.isNative, h.access]

namespace Rename

variable {store : Mapping} {plan : Plan} {c : ClassFile} {kind : SymbolKind} {p q : Pool}

theorem onlyRenamed_declaration {m : Member} {row : Member × Option Renaming}
    (member : ClassFile.WellFormedMember c.pool m) (keeps : c.pool.KeepsNames p)
    (size : p.size ≤ Pool.capacity) (h : declaration store plan c kind m p = .ok (row, q))
    {pool : Pool} (keeps' : q.KeepsNames pool) :
    OnlyRenamed store plan c kind pool m row.1 := by
  obtain ⟨name, isName⟩ := member.name
  obtain ⟨descriptor, isDescriptor⟩ := member.descriptor
  have declared := (declaration_spec member keeps size h).1.extends'.keepsNames
  have kept := (keeps.trans declared).trans keeps'
  rcases moves : plan.target? store (c.symbolOf kind m) with _ | newName
  · simp only [declaration, moves] at h
    obtain ⟨rfl, -⟩ := pure_eq_ok_iff.1 h
    refine ⟨rfl, rfl, ?_, rfl, fun _ => rfl, ?_⟩
    · rw [kept.rawText? isDescriptor, isDescriptor]
    · rw [kept.rawText? isName, isName, moves]
      rfl
  · simp only [declaration, moves] at h
    obtain ⟨index, q', interned, h⟩ := bind_eq_ok_iff.1 h
    obtain ⟨rfl, rfl⟩ := pure_eq_ok_iff.1 h
    have new : q'.get? index = some (.utf8 (ModifiedUtf8.encode newName)) :=
      (grown_of_constant size interned).1
    refine ⟨rfl, rfl, ?_, rfl, fun stays => ?_, ?_⟩
    · rw [kept.rawText? isDescriptor, isDescriptor]
    · rw [moves] at stays
      cases stays
    · rw [Pool.rawText?, keeps' index _ new rfl, moves]
      rfl

theorem onlyRenamed_mapM {members : List Member} {rows : List (Member × Option Renaming)}
    (wellFormed : ∀ m ∈ members, ClassFile.WellFormedMember c.pool m) (keeps : c.pool.KeepsNames p)
    (size : p.size ≤ Pool.capacity)
    (h : members.mapM (declaration store plan c kind) p = .ok (rows, q))
    {pool : Pool} (keeps' : q.KeepsNames pool) :
    List.Forall₂ (OnlyRenamed store plan c kind pool) members (rows.map Prod.fst) := by
  induction members generalizing rows p with
  | nil =>
    rw [List.mapM_nil] at h
    obtain ⟨rfl, -⟩ := pure_eq_ok_iff.1 h
    exact .nil
  | cons m members ih =>
    obtain ⟨row, p', rest, first, others, rfl⟩ := mapM_cons_eq_ok_iff.1 h
    have all := List.forall_mem_cons.1 wellFormed
    have grown := (declaration_spec all.1 keeps size first).1
    have keeps₁ := keeps.trans grown.extends'.keepsNames
    have grown' := (mapM_declaration_spec all.2 keeps₁ grown.size_le others).1
    exact .cons
      (onlyRenamed_declaration all.1 keeps size first (grown'.extends'.keepsNames.trans keeps'))
      (ih all.2 keeps₁ grown.size_le others)

end Rename

namespace ClassFile

open Rename

variable {c : ClassFile} {store : Mapping} {plan : Plan} {renamed : Renamed}

/-- Renaming a class changes nothing of its members but their names. -/
theorem onlyRenamed_rename (wf : c.WellFormed) (h : c.rename store plan = .ok renamed)
    (kind : SymbolKind) {pool : Pool} (keeps : renamed.file.pool.KeepsNames pool) :
    List.Forall₂ (OnlyRenamed store plan c kind pool) (c.membersOf kind).toList
      (renamed.file.membersOf kind).toList := by
  obtain ⟨fields, methods, attributes, p₁, p₂, p₃, u, first, second, third, last, isFields,
    isMethods, -⟩ := rename_eq_ok h
  have areFields (m : Member) (mem : m ∈ c.fields.toList) : WellFormedMember c.pool m :=
    wf.fields m (Array.mem_toList_iff.1 mem)
  have areMethods (m : Member) (mem : m ∈ c.methods.toList) : WellFormedMember c.pool m :=
    wf.methods m (Array.mem_toList_iff.1 mem)
  -- The pool grows from one step to the next, so what the first one names is named at the end.
  have grown₁ := (mapM_declaration_spec areFields (.refl _) wf.size_le first).1
  have grown₂ := (mapM_declaration_spec areMethods grown₁.extends'.keepsNames grown₁.size_le
    second).1
  obtain ⟨keeps₃, size₃, -⟩ := forM_references_spec wf (grown₁.trans grown₂) third
  have grown₄ := (mapM_enclosing_spec (c := { c with pool := p₃ }) wf.get?_zero
    ((grown₁.trans grown₂).extends'.keepsNames.trans keeps₃) (.refl _) size₃ last).1
  have keeps₂ := (keeps₃.trans grown₄.extends'.keepsNames).trans keeps
  cases kind with
  | «class» => exact .nil
  | field =>
    rw [membersOf, membersOf, isFields]
    exact onlyRenamed_mapM areFields (.refl _) wf.size_le first
      (grown₂.extends'.keepsNames.trans keeps₂)
  | method =>
    rw [membersOf, membersOf, isMethods]
    exact onlyRenamed_mapM areMethods grown₁.extends'.keepsNames grown₁.size_le second keeps₂

end ClassFile

/-! ## Recovering literals -/

namespace Literal

variable {c : ClassFile}

/-- Changing an item that is left out of a row before and after. -/
theorem filter_modify {α : Type} {p : α → Bool} {f : α → α} {row : List α} {k : Nat}
    (out : ∀ a, row[k]? = some a → p a = false ∧ p (f a) = false) :
    (row.modify k f).filter p = row.filter p := by
  induction row generalizing k with
  | nil => rw [List.modify_nil]
  | cons a row ih =>
    cases k with
    | zero =>
      obtain ⟨before, after⟩ := out a rfl
      rw [List.modify_zero_cons, List.filter_cons, List.filter_cons, before, after]
      rfl
    | succ k =>
      rw [List.modify_succ_cons, List.filter_cons, List.filter_cons, ih out]

theorem natives_editMethod {k : Nat} (other : ∀ m, c.methods[k]? = some m → m.isNative = false)
    (edit : Array UInt8 → Array UInt8) : (editMethod c k edit).natives = c.natives := by
  rw [ClassFile.natives, editMethod, Array.toList_modify]
  refine filter_modify fun m here => ?_
  rw [Array.getElem?_toList] at here
  exact ⟨other m here, other m here⟩

/-- The method of a site is not native in any class with the same heads of methods. -/
theorem IsSite.isNative {p : Plain} {d : ClassFile} (site : IsSite c p) (rebodied : c.Rebodied d)
    (m : Member) (here : d.methods[p.call.method]? = some m) : m.isNative = false := by
  obtain ⟨old, there, other, -⟩ := site.method
  have flags := congrArg (·[p.call.method]?) (rebodied.access .method)
  simp only [ClassFile.membersOf, List.getElem?_map, Array.getElem?_toList, here, there,
    Option.map_some, Option.some.injEq] at flags
  rw [Member.isNative, flags]
  exact other

theorem Settling.natives {E : Std.TreeSet UInt16} {s t : Progress} {p : Plain} {worked : Bool}
    (site : IsSite c p) (rebodied : c.Rebodied s.file) (h : Settling E s p t worked) :
    t.file.natives = s.file.natives := by
  cases h with
  | done | noText | repointed | noString | noOperand => rfl
  | reloaded =>
    rw [withOperand, natives_editMethod (site.isNative (rebodied.trans (rebodied_withPool ..)))]
    rfl

/-- A call is recovered in methods that are not native. -/
theorem natives_recoverCall {o : Outcome} {p : Plain} (site : IsSite c p)
    (rebodied : c.Rebodied o.progress.file) :
    (recoverCall (edited c) o p).progress.file.natives = o.progress.file.natives := by
  have settled := (settling_settle (edited c) o.progress p).natives site rebodied
  have rebodied' := rebodied.trans (rebodied_settle (edited c) o.progress p)
  obtain ⟨-, -, progress⟩ | ⟨-, -, progress⟩ := progress_recoverCall (edited c) o p
  · rw [progress, removeCall, natives_editMethod (site.isNative rebodied'), settled]
  · rw [progress, settled]

theorem natives_recoverLiterals (c : ClassFile) : c.recoverLiterals.1.natives = c.natives := by
  rw [(recoverLiterals_eq c).1]
  refine (List.foldlRecOn (motive := fun o : Outcome =>
    c.Rebodied o.progress.file ∧ o.progress.file.natives = c.natives) (found c) _
    ⟨.refl c, rfl⟩ fun o ⟨rebodied, same⟩ p mem => ?_).2
  exact ⟨rebodied.trans (rebodied_recoverCall (edited c) o p),
    (natives_recoverCall (isSite_of_mem_found mem) rebodied).trans same⟩

end Literal

/-! ## Simplifying the flow of control -/

namespace Clarified

theorem isNative_simplifyMethod {m : Member} {row : Member × FlowCounts}
    (h : simplifyMethod m = .ok row) : row.1.isNative = m.isNative := by
  have flags := congrArg Member.access (head_simplifyMethod h)
  exact congrArg (fun access => access &&& Access.native != 0) flags

theorem natives_simplifyAll {c d : ClassFile} {counts : FlowCounts}
    (h : simplifyAll c = .ok (d, counts)) : d.natives = c.natives := by
  obtain ⟨rows, mapped, rfl⟩ := simplifyAll_eq_ok h
  show (rows.map Prod.fst).filter Member.isNative = c.methods.toList.filter Member.isNative
  clear h
  generalize c.methods.toList = methods at mapped ⊢
  induction methods generalizing rows with
  | nil =>
    cases mapped
    rfl
  | cons m methods ih =>
    obtain ⟨row, rest, first, others, rfl⟩ := Except.mapM_cons_eq_ok_iff.1 mapped
    rw [List.map_cons, List.filter_cons, List.filter_cons, ih rest others,
      isNative_simplifyMethod first]
    split
    · next native =>
      rw [simplifyMethod, if_pos native] at first
      cases first
      rfl
    · rfl

end Clarified

/-! ## Removing junk -/

/-- A native method is no junk, suspect or not. -/
theorem Junk.natives_removeJunk (c : ClassFile) (suspects : Suspects)
    (formerNames : Std.TreeMap String String) (spent : List Symbol) :
    (c.removeJunk suspects formerNames spent).1.natives = c.natives := by
  rw [(removeJunk_eq ..).1]
  show (((fated c suspects formerNames).filter fun row => row.2.isNone).map Prod.fst).filter
    Member.isNative = c.methods.toList.filter Member.isNative
  rw [← map_fst_fated c suspects formerNames, List.filter_map, List.filter_map,
    List.filter_filter]
  refine congrArg _ (List.filter_congr fun row mem => ?_)
  obtain ⟨m, fate⟩ := row
  obtain ⟨k, row⟩ := List.mem_iff_getElem?.1 mem
  obtain ⟨here, decided⟩ := getElem?_fated row
  show (m.isNative && fate.isNone) = m.isNative
  cases native : m.isNative with
  | false => rfl
  | true =>
    have keep : isRemovable c m = false := by
      rw [isRemovable, native]
      rfl
    rw [fates_of_not_isRemovable here keep] at decided
    cases decided
    rfl

/-! ## All passes -/

namespace Clarified

/-- Native methods go through the passes one by one, each under its final name. -/
theorem natives_ofClass {ctx : PassContext} {bytes : Bytes} {c : ClassFile} {r : Clarified}
    (parsed : ClassFile.parse bytes = .ok c) (clarified : ofClass ctx c = .ok r) :
    List.Forall₂ (OnlyRenamed ctx.store ctx.plan c .method r.file.pool) c.natives
      r.file.natives := by
  obtain ⟨renamed, simple, counts, rename, simplified, -, removed⟩ := ofClass_eq_ok clarified
  have file : r.file = _ := congrArg Prod.fst removed
  have pool : r.file.pool = simple.pool := by
    rw [file, (Junk.removeJunk_eq ..).1]
  have natives : r.file.natives = renamed.file.natives := by
    rw [file, Junk.natives_removeJunk, natives_simplifyAll simplified,
      Literal.natives_recoverLiterals]
  have sound := (ClassFile.parse_eq_ok_iff.1 parsed).1.1.rename rename
  have members := ClassFile.onlyRenamed_rename (ClassFile.wellFormed_of_parse parsed) rename
    .method (keepsNames_of_simplified sound simplified)
  rw [natives, pool]
  exact List.rel_filter (fun m m' only => Bool.eq_iff_iff.1 only.isNative.symm) members

end Clarified

/-- A clarified class has the native methods that it had, in the same order: none is removed, and
nothing of them changes but their names. -/
theorem natives_clarifyUnit {ctx : PassContext} {entry : String} {bytes : Bytes} {out : UnitOutput}
    (h : (clarifyUnit ctx entry bytes).1 = .ok out) :
    ∃ c r, ClassFile.parse bytes = .ok c ∧ Clarified.ofClass ctx c = .ok r ∧
      out.bytes = r.file.write ∧ (r.file.pool.Short → ClassFile.parse out.bytes = .ok r.file) ∧
      List.Forall₂ (OnlyRenamed ctx.store ctx.plan c .method r.file.pool) c.natives
        r.file.natives := by
  obtain ⟨c, r, parsed, clarified, written⟩ := clarifyUnit_eq_ok h
  refine ⟨c, r, parsed, clarified, written, fun short => ?_,
    Clarified.natives_ofClass parsed clarified⟩
  rw [written]
  exact Clarified.parse_write parsed clarified short

/-- A private native method that nobody calls, with a body. -/
def namesake : Member where
  access := Access.private ||| Access.native
  name := 3
  descriptor := 19
  attributes := [.code 7 ⟨1, 1, #[0x12, 9, 0xB8, 0, 6, 0xB0], [], []⟩]

/-- A class with a helper `d`, and with a native method of the same name that calls it. -/
def namesakes : ClassFile := { Literal.crossed with
  methods := Literal.crossed.methods.push namesake }

theorem parse_namesakes : ClassFile.parse namesakes.write = .ok namesakes :=
  Except.eq_ok_of_toOption (by decide +kernel)

/-- Methods called `d` get another name, under which they are suspect. -/
def namesakesContext : PassContext where
  store := Mapping.empty.override "d" "decrypt"
  plan := { classes := Std.TreeSet.ofList ["S"], blocked := ∅ }
  suspects := Suspects.empty.insert "decrypt"

/-- The helper goes, and its native namesake stays with its new name. -/
theorem natives_clarifyUnit_namesakes : ∃ (out : UnitOutput) (r : Clarified) (m : Member),
    (clarifyUnit namesakesContext "S.class" namesakes.write).1 = .ok out ∧
    out.bytes = r.file.write ∧ ClassFile.parse out.bytes = .ok r.file ∧
    r.junk.removed = [⟨"S.decrypt(Ljava/lang/String;)Ljava/lang/String;", some "d", .suspect⟩] ∧
    r.file.natives = [m] ∧
    r.file.pool.rawText? m.name = some (ModifiedUtf8.encode "decrypt") ∧
    m.access = namesake.access ∧ m.descriptor = namesake.descriptor ∧
    m.attributes = namesake.attributes := by
  obtain ⟨r, clarified, facts⟩ := ClassFile.exists_ok_of_map_toOption
    (f := fun r : Clarified => (r.junk.removed,
      r.file.pool.slots.all fun slot => slot.all fun c : Constant => decide c.Fits))
    (b := ([⟨"S.decrypt(Ljava/lang/String;)Ljava/lang/String;", some "d", .suspect⟩], true))
    (show (Clarified.ofClass namesakesContext namesakes).toOption.map _ = _ by decide +kernel)
  obtain ⟨removed, fits⟩ := Prod.mk.inj facts
  obtain ⟨out, ok, -⟩ :=
    Clarified.clarifyUnit_of_ofClass namesakesContext "S.class" parse_namesakes clarified
  obtain ⟨c, r', parsed, clarified', written, back, natives⟩ := natives_clarifyUnit ok
  cases parse_namesakes.symm.trans parsed
  cases clarified.symm.trans clarified'
  rw [show namesakes.natives = [namesake] by decide +kernel] at natives
  obtain ⟨m, rest, renamed, none, isNatives⟩ := List.forall₂_cons_left_iff.1 natives
  obtain rfl := List.forall₂_nil_left_iff.1 none
  refine ⟨out, r, m, ok, written, back (Pool.short_of_all fits), removed, isNatives, ?_,
    renamed.access, renamed.descriptor, renamed.attributes⟩
  rw [renamed.nameText]
  decide +kernel

end Clarify
