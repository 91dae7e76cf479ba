import Clarify.Proofs.Literal.Frame
import Clarify.Proofs.Naming.Invariants
import Clarify.Proofs.Unit.Success

/-!
# Lengths of texts

The length of a text stands in two bytes in front of it, and the writer does not look whether it
fits. Renaming adds new names only. Recovering literals adds plain texts, which can be longer than
the literals: a key can make three bytes of one, and the unit 0 takes two. So a clarified class can
hold a text of more bytes than fit, and then it cannot be read back.

Results:
* `texts_ofClass`: the texts of a clarified class are its own, new names, and plain texts that
  differ from their literals.
* `hasText_recoverLiterals`: such a plain text is one of them once its call is recovered.
* `short_or_plain_clarifyUnit`: which texts can be too long.
-/

namespace Clarify

/-! ## Pools with given texts -/

namespace Pool

/-- All texts of the pool are such. -/
def Texts (fits : Bytes → Prop) (p : Pool) : Prop :=
  ∀ bytes, some (.utf8 bytes) ∈ p.slots → fits bytes

variable {fits : Bytes → Prop} {p q : Pool} {c : Constant} {i : UInt16}

theorem Texts.intern? (h : p.Texts fits) (new : ∀ bytes, c = .utf8 bytes → fits bytes)
    (interned : p.intern? c = some (i, q)) : q.Texts fits := by
  rw [Pool.intern?] at interned
  split at interned
  · cases interned
    exact h
  · intro bytes mem
    obtain ⟨-, slots, -⟩ := push?_eq_some interned
    rw [← Array.mem_toList_iff, slots, List.mem_append] at mem
    obtain old | added := mem
    · exact h bytes (Array.mem_toList_iff.1 old)
    · refine new bytes ?_
      rw [slotsOf] at added
      split at added
      · simp only [List.mem_cons, List.not_mem_nil, or_false, reduceCtorEq] at added
        exact (Option.some.inj added).symm
      · exact (Option.some.inj (List.mem_singleton.1 added)).symm

theorem Texts.replace (h : p.Texts fits) (other : ∀ bytes, c ≠ .utf8 bytes) (i : UInt16) :
    (p.replace i c).Texts fits := by
  intro bytes mem
  obtain old | new := Array.mem_or_eq_of_mem_setIfInBounds mem
  · exact h bytes old
  · exact absurd (Option.some.inj new).symm (other bytes)

theorem Texts.rawText? (h : p.Texts fits) {bytes : Bytes} (found : p.rawText? i = some bytes) :
    fits bytes := by
  unfold Pool.rawText? at found
  split at found
  · next here =>
    cases found
    exact h _ (Array.mem_of_getElem? (get?_eq_some_iff.1 here))
  · cases found

theorem rawText?_eq_some_iff {bytes : Bytes} :
    p.rawText? i = some bytes ↔ p.get? i = some (.utf8 bytes) := by
  unfold Pool.rawText?
  split
  · next here => simp [here]
  · next other =>
    refine ⟨fun found => ?_, fun here => absurd here (other bytes)⟩
    cases found

/-- The texts are short exactly if each is that can be looked up. -/
theorem short_iff_texts (size : p.size ≤ capacity) :
    p.Short ↔ p.Texts fun bytes => bytes.length ≤ 65535 := by
  constructor
  · intro short bytes mem
    obtain ⟨index, found⟩ := (some_mem_slots_iff size).1 mem
    exact short index bytes found
  · intro short index bytes found
    exact short bytes ((some_mem_slots_iff size).2 ⟨index, found⟩)

end Pool

/-! ## Renaming -/

namespace Rename

variable {fits : Bytes → Prop} {store : Mapping} {plan : Plan} {newName : String}

theorem preserves_texts_constant {c : Constant} (new : ∀ bytes, c = .utf8 bytes → fits bytes) :
    Preserves (Pool.Texts fits) (constant c) := by
  intro p i q h texts
  exact texts.intern? new (constant_eq_ok_iff.1 h)

theorem preserves_texts_text (new : fits (ModifiedUtf8.encode newName)) :
    Preserves (Pool.Texts fits) (text newName) :=
  preserves_texts_constant fun bytes same => by cases same; exact new

theorem preserves_texts_namedLike (new : fits (ModifiedUtf8.encode newName)) (index : UInt16) :
    Preserves (Pool.Texts fits) (namedLike index newName) := by
  refine preserves_get.bind fun pool => ?_
  split
  · exact (preserves_texts_text new).bind fun i =>
      preserves_texts_constant fun bytes same => by cases same
  · exact preserves_throw _
  · exact preserves_throw _

theorem stable_texts
    (names : ∀ s newName, plan.target? store s = some newName →
      fits (ModifiedUtf8.encode newName)) (c : ClassFile) :
    Stable (Pool.Texts fits) store plan c where
  text s newName moves := preserves_texts_text (names s newName moves)
  namedLike s newName moves := preserves_texts_namedLike (names s newName moves)
  repoint r mem := by
    obtain ⟨s, moves⟩ := exists_target?_of_mem_references mem
    refine (preserves_texts_namedLike (names s _ moves) _).bind fun pair => ?_
    intro p u q h texts
    cases h
    exact texts.replace (fun bytes same => by cases same) _

end Rename

/-! ## Recovering literals -/

namespace Literal

variable {c : ClassFile} {p : Plain} {E : Std.TreeSet UInt16} {s t : Progress} {worked : Bool}

theorem Settling.texts {fits : Bytes → Prop} (h : Settling E s p t worked)
    (new : p.unchanged = false → fits (ModifiedUtf8.encode p.text))
    (texts : s.file.pool.Texts fits) : t.file.pool.Texts fits := by
  have text {pool : Pool} {i : UInt16} (changed : p.unchanged = false)
      (interned : s.file.pool.internText? p.text = some (i, pool)) : pool.Texts fits :=
    texts.intern? (fun bytes same => by cases same; exact new changed) interned
  cases h with
  | done | noText => exact texts
  | repointed changed own first interned =>
    exact (text changed interned).replace (fun bytes same => by cases same) _
  | noString changed shared interned => exact text changed interned
  | noOperand changed shared interned interned' | reloaded changed shared interned interned' =>
    exact (text changed interned).intern? (fun bytes same => by cases same) interned'

/-- Recovering literals adds no texts but plain texts that differ from their literals. -/
theorem texts_recoverLiterals {fits : Bytes → Prop}
    (new : ∀ p ∈ found c, p.unchanged = false → fits (ModifiedUtf8.encode p.text))
    (texts : c.pool.Texts fits) : c.recoverLiterals.1.pool.Texts fits := by
  rw [(recoverLiterals_eq c).1]
  refine List.foldlRecOn (motive := fun o : Outcome => o.progress.file.pool.Texts fits)
    (found c) _ texts fun o texts p mem => ?_
  have settled := (settling_settle (edited c) o.progress p).texts (new p mem) texts
  obtain ⟨-, -, progress⟩ | ⟨-, -, progress⟩ := progress_recoverCall (edited c) o p
  · rw [progress]
    exact settled
  · rw [progress]
    exact settled

/-! ### Plain texts that are added -/

/-- The pool has the text. -/
def HasText (pool : Pool) (text : String) : Prop :=
  ∃ i, pool.get? i = some (.utf8 (ModifiedUtf8.encode text))

theorem HasText.keeps {pool pool' : Pool} {text : String} (h : HasText pool text)
    (keeps : pool.Keeps Constant.blankString pool') : HasText pool' text :=
  h.imp fun _ => keeps.blank.utf8

theorem hasText_of_internText? {pool pool' : Pool} {text : String} {i : UInt16}
    (size : pool.size ≤ Pool.capacity) (interned : pool.internText? text = some (i, pool')) :
    HasText pool' text :=
  ⟨i, Pool.get?_of_intern? size interned⟩

/-- The constant of a call may get another text. -/
theorem IsSite.keeps_replace (site : IsSite c p) {pool : Pool}
    (keeps : c.pool.Keeps Constant.blankString pool) (value : UInt16) :
    pool.Keeps Constant.blankString (pool.replace p.index (.string value)) := by
  obtain ⟨_, here⟩ := site.exists_string keeps
  exact Pool.keeps_replace here rfl

section Settling

variable (h : Settling E s p t worked) (site : IsSite c p)
  (size : s.file.pool.size ≤ Pool.capacity)
  (keeps : c.pool.Keeps Constant.blankString s.file.pool)

include h site size keeps

/-- The pool only grows, and string constants stay string constants. -/
theorem Settling.grows : t.file.pool.size ≤ Pool.capacity ∧
    s.file.pool.Keeps Constant.blankString t.file.pool := by
  have text {pool : Pool} {i : UInt16}
      (interned : s.file.pool.internText? p.text = some (i, pool)) :
      pool.size ≤ Pool.capacity ∧ s.file.pool.Keeps Constant.blankString pool :=
    ⟨Pool.size_le_of_intern? size interned, (Pool.extends_of_intern? interned).keeps⟩
  cases h with
  | done | noText => exact ⟨size, .refl _ _⟩
  | repointed changed own first interned =>
    obtain ⟨size, grown⟩ := text interned
    refine ⟨?_, grown.trans (site.keeps_replace (keeps.trans grown) _)⟩
    rw [Pool.size_replace]
    exact size
  | noString changed shared interned => exact text interned
  | noOperand changed shared interned interned' | reloaded changed shared interned interned' =>
    obtain ⟨size, grown⟩ := text interned
    exact ⟨Pool.size_le_of_intern? size interned',
      grown.trans (Pool.extends_of_intern? interned').keeps⟩

/-- A plain text that differs from its literal is added, unless its constant has got it before. -/
theorem Settling.hasText :
    (worked = true → p.unchanged = false → HasText t.file.pool p.text ∨
      E.contains p.index = true ∧ s.repointed.contains p.index = true) ∧
    ∀ x, t.repointed.contains x = true → s.repointed.contains x = true ∨
      p.index = x ∧ HasText t.file.pool p.text := by
  cases h with
  | done plain =>
    refine ⟨fun _ changed => .inr (plain.resolve_left ?_), fun x touched => .inl touched⟩
    rw [changed]
    decide
  | noText => exact ⟨fun worked => absurd worked (by decide), fun x touched => .inl touched⟩
  | @repointed changed own first text pool interned =>
    have has := (hasText_of_internText? size interned).keeps
      (site.keeps_replace (keeps.trans (Pool.extends_of_intern? interned).keeps) text)
    refine ⟨fun _ _ => .inl has, fun x touched => ?_⟩
    obtain here | before := contains_insert_iff.1 touched
    · exact .inr ⟨here, has⟩
    · exact .inl before
  | noString | noOperand =>
    exact ⟨fun worked => absurd worked (by decide), fun x touched => .inl touched⟩
  | reloaded changed shared interned interned' =>
    have has := (hasText_of_internText? size interned).keeps
      (Pool.extends_of_intern? interned').keeps
    exact ⟨fun _ _ => .inl has, fun x touched => .inl touched⟩

end Settling

/-- What holds of the pool after some calls: the plain texts of the constants that got one, and of
the calls that were recovered, are there. -/
structure Stocked (c : ClassFile) (o : Outcome) : Prop where
  size_le : o.progress.file.pool.size ≤ Pool.capacity
  keeps : c.pool.Keeps Constant.blankString o.progress.file.pool
  repointed : ∀ x, o.progress.repointed.contains x = true →
    ∃ q ∈ found c, q.index = x ∧ HasText o.progress.file.pool q.text
  recovered : ∀ q ∈ o.recovered, q.unchanged = false → HasText o.progress.file.pool q.text

theorem Stocked.recoverCall {o : Outcome} (h : Stocked c o) (mem : p ∈ found c) :
    Stocked c (recoverCall (edited c) o p) := by
  have site := isSite_of_mem_found mem
  have settling := settling_settle (edited c) o.progress p
  obtain ⟨size, grown⟩ := settling.grows site h.size_le h.keeps
  obtain ⟨own, touched⟩ := settling.hasText site h.size_le h.keeps
  have repointed (x : UInt16)
      (after : (settle (edited c) o.progress p).1.repointed.contains x = true) :
      ∃ q ∈ found c, q.index = x ∧
        HasText (settle (edited c) o.progress p).1.file.pool q.text := by
    obtain before | ⟨at', has⟩ := touched x after
    · obtain ⟨q, hq, at', has⟩ := h.repointed x before
      exact ⟨q, hq, at', has.keeps grown⟩
    · exact ⟨p, mem, at', has⟩
  have old (q : Plain) (hq : q ∈ o.recovered) (changed : q.unchanged = false) :
      HasText (settle (edited c) o.progress p).1.file.pool q.text :=
    (h.recovered q hq changed).keeps grown
  obtain ⟨worked, recovered, progress⟩ | ⟨-, recovered, progress⟩ :=
    progress_recoverCall (edited c) o p
  · refine { size_le := ?_, keeps := ?_, repointed := ?_, recovered := ?_ }
    all_goals rw [progress]
    · exact size
    · exact h.keeps.trans grown
    · exact repointed
    · rw [recovered]
      intro q hq changed
      obtain rfl | before := List.mem_cons.1 hq
      · obtain has | ⟨exclusive, touched⟩ := own worked changed
        · exact has
        -- The constant has got the text for an earlier call, and so for this one.
        · obtain ⟨r, hr, at', has⟩ := h.repointed _ touched
          rw [← text_eq_of_edited exclusive hr mem at' rfl]
          exact has.keeps grown
      · exact old q before changed
  · refine { size_le := ?_, keeps := ?_, repointed := ?_, recovered := ?_ }
    all_goals rw [progress]
    · exact size
    · exact h.keeps.trans grown
    · exact repointed
    · rw [recovered]
      exact old

/-- A plain text that differs from its literal is in the pool once its call is recovered. -/
theorem hasText_recoverLiterals (size : c.pool.size ≤ Pool.capacity) (mem : p ∈ recovered c)
    (changed : p.unchanged = false) : HasText c.recoverLiterals.1.pool p.text := by
  have start : Stocked c { progress := start c, recovered := [], failed := [] } := by
    refine ⟨size, .refl _ _, fun x touched => ?_, fun q mem => absurd mem List.not_mem_nil⟩
    rw [show (start c).repointed.contains x = false by simp [Literal.start]] at touched
    cases touched
  have stocked : Stocked c (outcome c) := List.foldlRecOn (motive := Stocked c) (found c) _ start
    fun o stocked p mem => stocked.recoverCall mem
  rw [(recoverLiterals_eq c).1]
  exact stocked.recovered p (List.mem_reverse.1 mem) changed

end Literal

/-! ## All passes -/

namespace Clarified

variable {ctx : PassContext} {c : ClassFile} {r : Clarified}

/-- The pool of a clarified class is that of the class with its literals recovered. -/
theorem pool_ofClass (h : ofClass ctx c = .ok r) : ∃ renamed,
    c.rename ctx.store ctx.plan = .ok renamed ∧
      r.literals = renamed.file.recoverLiterals.2 ∧
      r.file.pool = renamed.file.recoverLiterals.1.pool := by
  rw [ofClass, Except.bind_eq_ok_iff] at h
  obtain ⟨renamed, rename, h⟩ := h
  obtain ⟨⟨simple, counts⟩, simplified, h⟩ := Except.bind_eq_ok_iff.1 h
  cases h
  obtain ⟨rows, -, rfl⟩ := simplifyAll_eq_ok (Except.mapError_eq_ok_iff.1 simplified)
  exact ⟨renamed, rename, rfl, rfl⟩

/-- The texts of a clarified class are its own, new names, and plain texts that differ from their
literals. -/
theorem texts_ofClass {fits : Bytes → Prop} {renamed : Renamed} (texts : c.pool.Texts fits)
    (names : ∀ s newName, ctx.plan.target? ctx.store s = some newName →
      fits (ModifiedUtf8.encode newName))
    (rename : c.rename ctx.store ctx.plan = .ok renamed)
    (plain : ∀ p ∈ Literal.found renamed.file, p.unchanged = false →
      fits (ModifiedUtf8.encode p.text)) : renamed.file.recoverLiterals.1.pool.Texts fits :=
  Literal.texts_recoverLiterals plain ((Rename.stable_texts names c).rename texts rename)

end Clarified

/-- Where no new name is too long, a text of a clarified class can be too long only as a plain text
that differs from its literal. Such a text is there if its call is recovered, and with a text that
is too long the class is not read back as it is. -/
theorem short_or_plain_clarifyUnit {ctx : PassContext} {entry : String} {bytes : Bytes}
    {out : UnitOutput}
    (names : ∀ old newName, ctx.store.resolve? old = some newName →
      (ModifiedUtf8.encode newName).length ≤ 65535)
    (h : (clarifyUnit ctx entry bytes).1 = .ok out) :
    ∃ c renamed r, ClassFile.parse bytes = .ok c ∧
      c.rename ctx.store ctx.plan = .ok renamed ∧ Clarified.ofClass ctx c = .ok r ∧
      out.bytes = r.file.write ∧
      r.literals.recovered = (Literal.recovered renamed.file).map Literal.Plain.report ∧
      (∀ i text, r.file.pool.rawText? i = some text → text.length ≤ 65535 ∨
        ∃ p ∈ Literal.found renamed.file, p.unchanged = false ∧
          text = ModifiedUtf8.encode p.text) ∧
      (∀ p ∈ Literal.recovered renamed.file, p.unchanged = false →
        ∃ i, r.file.pool.rawText? i = some (ModifiedUtf8.encode p.text)) ∧
      (ClassFile.parse out.bytes = .ok r.file ↔
        ∀ i text, r.file.pool.rawText? i = some text → text.length ≤ 65535) := by
  obtain ⟨c, r, parsed, clarified, written⟩ := clarifyUnit_eq_ok h
  obtain ⟨renamed, rename, literals, pool⟩ := Clarified.pool_ofClass clarified
  obtain ⟨⟨sound, short⟩, -⟩ := ClassFile.parse_eq_ok_iff.1 parsed
  have size := (sound.rename rename).pool.size_le
  have texts : renamed.file.recoverLiterals.1.pool.Texts fun bytes => bytes.length ≤ 65535 ∨
      ∃ p ∈ Literal.found renamed.file, p.unchanged = false ∧
        bytes = ModifiedUtf8.encode p.text := Clarified.texts_ofClass
    (fun bytes mem => .inl ((Pool.short_iff_texts sound.pool.size_le).1 short bytes mem))
    (fun s newName moves => .inl (names _ _ (Plan.resolve?_of_target? moves))) rename
    fun p mem changed => .inr ⟨p, mem, changed, rfl⟩
  refine ⟨c, renamed, r, parsed, rename, clarified, written, ?_, fun i text found => ?_,
    fun p mem changed => ?_, ?_⟩
  · rw [literals]
    exact (Literal.recoverLiterals_eq renamed.file).2
  · rw [pool] at found
    exact texts.rawText? found
  · obtain ⟨i, here⟩ := Literal.hasText_recoverLiterals size mem changed
    rw [pool]
    exact ⟨i, Pool.rawText?_eq_some_iff.2 here⟩
  · simp only [Pool.rawText?_eq_some_iff]
    rw [written]
    refine ⟨fun back => (ClassFile.parse_eq_ok_iff.1 back).1.2, fun short => ?_⟩
    exact Clarified.parse_write parsed clarified short

/-- The only new name is short, and so are the plain texts. -/
theorem short_or_plain_crossed :
    (∀ old newName, crossedContext.store.resolve? old = some newName →
      (ModifiedUtf8.encode newName).length ≤ 65535) ∧
    ∃ (out : UnitOutput) (r : Clarified),
      (clarifyUnit crossedContext "S.class" Literal.crossed.write).1 = .ok out ∧
      r.literals.recovered.map RecoveredLiteral.text = ["P", "Q"] ∧
      ClassFile.parse out.bytes = .ok r.file := by
  have names (old newName : String) (h : crossedContext.store.resolve? old = some newName) :
      (ModifiedUtf8.encode newName).length ≤ 65535 := by
    rw [Mapping.resolve?, crossedContext, Mapping.get?_override] at h
    split at h
    · cases h
      decide
    · cases h
  obtain ⟨renamed, rename, short⟩ := ClassFile.exists_ok_of_map_toOption
    (f := fun r : Renamed => ((Literal.found r.file).all fun p =>
        decide ((ModifiedUtf8.encode p.text).length ≤ 65535),
      ((Literal.recovered r.file).map Literal.Plain.report).map RecoveredLiteral.text))
    (b := (true, ["P", "Q"]))
    (show (Literal.crossed.rename crossedContext.store crossedContext.plan).toOption.map _ = _ by
      decide +kernel)
  obtain ⟨short, plain⟩ := Prod.mk.inj short
  obtain ⟨r, clarified⟩ := Clarified.exists_ofClass crossedContext
    (ClassFile.parse_eq_ok_iff.1 Literal.parse_crossed).1.1 rename
  obtain ⟨out, ok, -⟩ := Clarified.clarifyUnit_of_ofClass crossedContext "S.class"
    Literal.parse_crossed clarified
  obtain ⟨c, renamed', r', parsed, rename', clarified', -, report, texts, -, back⟩ :=
    short_or_plain_clarifyUnit names ok
  cases Literal.parse_crossed.symm.trans parsed
  cases rename.symm.trans rename'
  cases clarified.symm.trans clarified'
  refine ⟨names, out, r, ok, by rw [report, plain], back.2 fun i text found => ?_⟩
  obtain fits | ⟨p, mem, -, rfl⟩ := texts i text found
  · exact fits
  · exact of_decide_eq_true (List.all_eq_true.1 short p mem)

/-! ### A plain text that is too long -/

namespace Pool

variable {p q : Pool} {c : Constant} {i : UInt16}

/-- A constant that the pool does not have is added behind the others. -/
theorem intern?_of_absent (absent : p.find? c = none)
    (room : p.size + (slotsOf (some c)).length ≤ capacity) : p.intern? c =
      some (UInt16.ofNat p.size, ⟨p.slots.appendList (slotsOf (some c))⟩) := by
  rw [intern?, absent]
  dsimp only
  rw [push?, pushSlot?, freeSlots, if_neg (by omega)]

theorem exists_intern? (room : p.size + (slotsOf (some c)).length ≤ capacity) :
    ∃ i q, p.intern? c = some (i, q) ∧ q.size ≤ p.size + (slotsOf (some c)).length := by
  rcases found : p.find? c with _ | i
  · refine ⟨_, _, intern?_of_absent found room, ?_⟩
    rw [size, ← Array.length_toList]
    simp [size]
  · exact ⟨i, p, by rw [intern?, found], Nat.le_add_right ..⟩

end Pool

namespace Literal

variable {p : Plain} {E : Std.TreeSet UInt16} {s t : Progress} {worked : Bool}

/-- Where there is room in the pool and in the load, settling the load works. -/
theorem Settling.worked_of_room (h : Settling E s p t worked)
    (room : s.file.pool.size + 2 ≤ Pool.capacity) (wide : p.load.opcode = Opcode.ldcWide) :
    worked = true := by
  obtain ⟨i, pool, interned, size⟩ := Pool.exists_intern?
    (c := .utf8 (ModifiedUtf8.encode p.text)) (Nat.le_trans (Nat.le_succ _) room)
  have size : pool.size ≤ s.file.pool.size + 1 := size
  cases h with
  | done | repointed | reloaded => rfl
  | noText changed open' full =>
    rw [Pool.internText?, interned] at full
    cases full
  | noString changed shared interned' full =>
    rw [Pool.internText?, interned] at interned'
    cases interned'
    obtain ⟨x, pool', added, -⟩ := Pool.exists_intern? (p := pool) (c := .string i)
      (show pool.size + 1 ≤ _ by omega)
    rw [full] at added
    cases added
  | noOperand changed shared interned' added narrow =>
    rw [loadOperand?, wide, if_neg (by decide)] at narrow
    cases narrow

end Literal

/-- A row of the same unit, each of one byte. -/
theorem ModifiedUtf8.units_replicate {u : UInt16} {b : UInt8} (one : encodeUnit u = [b]) (n : Nat) :
    units (List.replicate n b) = List.replicate n u := by
  have bytes : encodeUnits (List.replicate n u) = List.replicate n b := by
    induction n with
    | zero => rfl
    | succ n ih =>
      rw [List.replicate_succ, encodeUnits_cons, ih, one]
      rfl
  rw [← bytes, units_encodeUnits]

namespace Literal

theorem decodeCall?_of_decode {pool : Pool} {call : Call} {load : Instruction} {index : UInt16}
    {decoding : Decoding} {units : List UInt16} {text : String}
    (place : call.load = some (load, index)) (rule : call.helper.decoding = some decoding)
    (raw : unitsAt? pool index = some units) (decoded : decoding.decode units = .ok text) :
    decodeCall? pool call =
      some (.ok { call, load, index, text, unchanged := Utf16.ofString text == units }) := by
  simp only [decodeCall?, place, rule, raw, decoded, Option.bind_eq_bind, Option.bind_some]

theorem found_of_call {c : ClassFile} {call : Call} {p : Plain}
    (calls : ((scanned c).flatMap (findingsIn c c.helpers)).filterMap Finding.call? = [call])
    (decoded : decodeCall? c.pool call = some (.ok p)) : found c = [p] := by
  rw [found, calls, List.filterMap_cons_some decoded]
  rfl

/-- The text of `n` times the character U+0841. -/
def longText (n : Nat) : String := String.ofList (List.replicate n '\u0841')

theorem ofString_longText (n : Nat) : Utf16.ofString (longText n) = List.replicate n 0x841 := by
  rw [longText, Utf16.ofString, String.toList_ofList]
  induction n with
  | zero => rfl
  | succ n ih =>
    rw [List.replicate_succ, Utf16.ofChars_cons, ih]
    rfl

/-- Each of the characters takes three bytes. -/
theorem length_encode_longText (n : Nat) : (ModifiedUtf8.encode (longText n)).length = 3 * n := by
  rw [ModifiedUtf8.encode, ofString_longText]
  induction n with
  | zero => rfl
  | succ n ih =>
    rw [List.replicate_succ, ModifiedUtf8.encodeUnits_cons, List.length_append, ih]
    show 3 + _ = _
    omega

/-- The plain text of `n` times the letter `A` under the key 0x800. -/
theorem decode_letters (n : Nat) :
    (Decoding.charXor 0x800).decode (List.replicate n 0x41) = .ok (longText n) := by
  have key : (List.replicate n (0x41 : UInt16)).map (· ^^^ 0x800) = List.replicate n 0x841 := by
    rw [List.map_replicate]
    rfl
  rw [Decoding.decode, key, ← ofString_longText, Decoding.textOf, Utf16.decode?_ofString]

/-- The class `crossed` with other methods: a helper that puts each unit under the key 0x800, and
one that calls it with the string at index 23. -/
def keyed : ClassFile := { crossed with
  methods := #[
    { access := Access.private ||| Access.static, name := 3, descriptor := 4
      attributes := [.code 7 ⟨8, 8,
        #[0x2A, 0xB6, 0, 17, 0x57, 0x10, 5, 0x11, 8, 0, 0x82, 0x57, 0x2A, 0xB0], [], []⟩] },
    { access := Access.public, name := 18, descriptor := 19
      attributes := [.code 7 ⟨8, 8, #[0x13, 0, 23, 0xB8, 0, 6, 0xB0], [], []⟩] }] }

theorem parse_keyed : ClassFile.parse keyed.write = .ok keyed :=
  Except.eq_ok_of_toOption (by decide +kernel)

/-- The bytes of the letter `A` 21846 times. -/
def letters : Bytes := List.replicate 21846 0x41

/-- The pool of `keyed` with the letters and a string of them. -/
def letteredPool : Pool :=
  ⟨(keyed.pool.slots.appendList [some (.utf8 letters)]).appendList [some (.string 22)]⟩

/-- The class `keyed` with its literal. -/
def lettered : ClassFile := { keyed with pool := letteredPool }

theorem sound_lettered : lettered.Sound ∧ lettered.pool.Short := by
  obtain ⟨⟨sound, short⟩, -⟩ := ClassFile.parse_eq_ok_iff.1 parse_keyed
  have text : keyed.pool.intern? (.utf8 letters) =
      some (22, ⟨keyed.pool.slots.appendList [some (.utf8 letters)]⟩) :=
    Pool.intern?_of_absent (by decide +kernel) (by decide +kernel)
  have string : (Pool.mk (keyed.pool.slots.appendList [some (.utf8 letters)])).intern?
      (.string 22) = some (23, letteredPool) :=
    Pool.intern?_of_absent (by decide +kernel) (by decide +kernel)
  have pool := sound.pool.intern? (c := .utf8 letters) rfl text
  have found := Pool.get?_of_intern? sound.pool.size_le text
  have pool' := pool.intern? (c := .string 22) (Pool.expectText_eq_ok_iff.2 ⟨_, found⟩) string
  have keeps : keyed.pool.Keeps Constant.blank letteredPool :=
    ((Pool.extends_of_intern? text).trans (Pool.extends_of_intern? string)).keeps
  constructor
  · exact sound.change pool' keeps
      ⟨sound.fields.1, fun m mem => (sound.fields.2 m mem).keeps keeps⟩
      ⟨sound.methods.1, fun m mem => (sound.methods.2 m mem).keeps keeps⟩ sound.attributes
      fun a mem => (sound.attributeNames a mem).imp fun _ => keeps.utf8
  · refine (Pool.short_iff_texts pool'.size_le).2 (Pool.Texts.intern? (Pool.Texts.intern?
      ((Pool.short_iff_texts sound.pool.size_le).1 short) (fun bytes same => ?_) text)
      (fun bytes same => ?_) string)
    · cases same
      rw [letters, List.length_replicate]
      decide
    · cases same

theorem parse_lettered : ClassFile.parse lettered.write = .ok lettered :=
  ClassFile.parse_eq_ok_iff.2 ⟨sound_lettered, rfl⟩

/-- The plain text of the literal takes 65538 bytes. -/
theorem exists_found_lettered : ∃ p, found lettered = [p] ∧ p.text = longText 21846 ∧
    p.unchanged = false ∧ p.load.opcode = Opcode.ldcWide := by
  obtain ⟨call, calls, view⟩ := List.map_eq_singleton_iff.1
    (show ((((scanned lettered).flatMap (findingsIn lettered lettered.helpers)).filterMap
        Finding.call?).map fun call => (call.load, call.helper.decoding)) =
      [(some (⟨0, Opcode.ldcWide, 2, .index 23⟩, 23), some (.charXor 0x800))] by decide +kernel)
  obtain ⟨load, decoding⟩ := Prod.mk.inj view
  have units : unitsAt? lettered.pool 23 = some (List.replicate 21846 0x41) := by
    have string : lettered.pool.get? 23 = some (.string 22) := rfl
    have text : lettered.pool.rawText? 22 = some letters := rfl
    simp only [unitsAt?, string, text, Option.map_some]
    rw [letters, ModifiedUtf8.units_replicate (u := 0x41) (b := 0x41) rfl]
  have changed : (Utf16.ofString (longText 21846) ==
      List.replicate 21846 (0x41 : UInt16)) = false := by
    rw [ofString_longText, beq_eq_false_iff_ne]
    intro same
    exact absurd ((List.replicate_right_inj (by decide)).1 same) (by decide)
  have decoded := decodeCall?_of_decode load decoding units (decode_letters 21846)
  exact ⟨_, found_of_call calls decoded, rfl, changed, rfl⟩

end Literal

/-- No name is changed. -/
def letteredContext : PassContext where
  store := .empty
  plan := { classes := ∅, blocked := ∅ }
  suspects := .empty

/-- A class that can be read, and a store without names, with which the class is clarified to one
that has a text of 65538 bytes and is not read back. -/
theorem exists_long_text : ∃ (bytes : Bytes) (c : ClassFile) (ctx : PassContext)
    (out : UnitOutput) (r : Clarified) (i : UInt16) (text : Bytes),
    ClassFile.parse bytes = .ok c ∧ (∀ old, ctx.store.resolve? old = none) ∧
      (clarifyUnit ctx "S.class" bytes).1 = .ok out ∧ Clarified.ofClass ctx c = .ok r ∧
      out.bytes = r.file.write ∧ r.file.pool.rawText? i = some text ∧ text.length = 65538 ∧
      ClassFile.parse out.bytes ≠ .ok r.file := by
  have none' (s : Symbol) : letteredContext.plan.target? letteredContext.store s = none := by
    unfold Plan.target?
    split
    · rfl
    · rfl
  have still : Rename.Still letteredContext.store letteredContext.plan Literal.lettered := by
    refine ⟨fun kind s mem => none' s, fun l r linked => ?_⟩
    rw [Rename.linkTarget?, none', ite_self]
  have rename := ClassFile.rename_eq_self still Literal.sound_lettered.1.pool.size_le
  obtain ⟨r, clarified⟩ := Clarified.exists_ofClass letteredContext
    Literal.sound_lettered.1 rename
  obtain ⟨out, ok, -⟩ := Clarified.clarifyUnit_of_ofClass letteredContext "S.class"
    Literal.parse_lettered clarified
  obtain ⟨c, renamed, r', parsed, rename', clarified', written, -, -, added, back⟩ :=
    short_or_plain_clarifyUnit (fun old newName h => by cases h) ok
  cases Literal.parse_lettered.symm.trans parsed
  cases rename.symm.trans rename'
  cases clarified.symm.trans clarified'
  obtain ⟨p, found, text, changed, wide⟩ := Literal.exists_found_lettered
  have mem : p ∈ Literal.recovered Literal.lettered := by
    rw [Literal.recovered, List.mem_reverse, Literal.outcome, found, List.foldl_cons,
      List.foldl_nil]
    have worked := (Literal.settling_settle (Literal.edited Literal.lettered)
      (Literal.start Literal.lettered) p).worked_of_room (by decide +kernel) wide
    obtain ⟨-, recovered, -⟩ | ⟨failed, -⟩ := Literal.progress_recoverCall
      (Literal.edited Literal.lettered) ⟨Literal.start Literal.lettered, [], []⟩ p
    · rw [recovered]
      exact List.mem_cons_self
    · rw [worked] at failed
      cases failed
  obtain ⟨i, here⟩ := added p mem changed
  have length : (ModifiedUtf8.encode p.text).length = 65538 := by
    rw [text, Literal.length_encode_longText]
  refine ⟨_, _, letteredContext, out, r, i, _, Literal.parse_lettered, fun old => rfl, ok,
    clarified, written, here, length, fun same => ?_⟩
  have short := back.1 same i _ here
  rw [length] at short
  exact absurd short (by decide)

end Clarify
