import Clarify.Proofs.ClassFile.RoundTrip

/-!
# Where class files end

A reader sees no end of its bytes before it runs into it. So putting more bytes behind them changes
an answer in one way only: where bytes were missing, reading goes on. A class file is read up to the
end of its bytes, hence no class file goes on in another one.

Results:
* `steady_of_readsWidth`, `Steady.bind`: single reads, and one behind the other.
* `Pool.steady_read`, `ClassFile.steady_readMembers`: the parts of a class file.
* `ClassFile.delimits_read`: the whole, and the check that ends it.
* `ClassFile.truncated_and_trailing_of_parse`: what is read when a class file is cut short or
  followed by something.
-/

namespace Clarify

/-- The cursor with more bytes behind those that are left. -/
def Cursor.extend (s : Cursor) (more : Bytes) : Cursor := ⟨s.rest ++ more, s.offset⟩

namespace Reader

/-- What a reader answers when more bytes follow those that it had. -/
inductive Prolongs {α : Type} (more : Bytes) :
    EStateM.Result FormatError Cursor α → EStateM.Result FormatError Cursor α → Prop where
  /-- A value stays, and the further bytes are left. -/
  | value (a : α) (t : Cursor) : Prolongs more (.ok a t) (.ok a (t.extend more))
  /-- A fault of the bytes that were there stays. -/
  | fault (e : FormatError) (t : Cursor) : Prolongs more (.error e t) (.error e (t.extend more))
  /-- Where the further bytes are too few, only the rest of the missing ones is still missing. -/
  | short {offset needed : Nat} {t u : Cursor} (few : more.length < needed) :
    Prolongs more (.error (.truncated offset needed) t)
      (.error (.truncated offset (needed - more.length)) u)
  /-- Where they are enough, reading goes on, and anything may come of it. -/
  | resumed {offset needed : Nat} {t : Cursor} {r : EStateM.Result FormatError Cursor α}
    (pos : 0 < needed) (enough : needed ≤ more.length) :
    Prolongs more (.error (.truncated offset needed) t) r

/-- Only missing bytes tell the reader where its bytes end. -/
def Steady {α : Type} (item : Reader α) : Prop :=
  ∀ s more, Prolongs more (item s) (item (s.extend more))

variable {α β : Type}

/-! ## Single reads -/

/-- The reader makes a value of the next `n` bytes and asks for no others. -/
def ReadsWidth (item : Reader α) (n : Nat) (value : Bytes → α) : Prop :=
  ∀ s, item s =
    if n ≤ s.rest.length then .ok (value (s.rest.take n)) ⟨s.rest.drop n, s.offset + n⟩
    else .error (.truncated s.offset (n - s.rest.length)) s

theorem readsWidth_take (n : Nat) : ReadsWidth (take n) n id := by
  intro s
  unfold take
  simp only [List.length_take]
  by_cases enough : n ≤ s.rest.length
  · rw [if_pos (by omega), if_pos enough, id_eq]
  · rw [if_neg (by omega), if_neg enough, Nat.min_eq_right (by omega)]

theorem readsWidth_u8 : ReadsWidth u8 1 fun bytes => bytes[0]! := by
  rintro ⟨_ | ⟨b, rest⟩, offset⟩ <;> simp [u8]

theorem readsWidth_u16 : ReadsWidth u16 2 fun bytes => word16 bytes[0]! bytes[1]! := by
  rintro ⟨_ | ⟨hi, _ | ⟨lo, rest⟩⟩, offset⟩ <;> simp [u16]

theorem readsWidth_u32 :
    ReadsWidth u32 4 fun bytes => word32 bytes[0]! bytes[1]! bytes[2]! bytes[3]! := by
  rintro ⟨_ | ⟨b0, _ | ⟨b1, _ | ⟨b2, _ | ⟨b3, rest⟩⟩⟩⟩, offset⟩ <;> simp [u32]

theorem steady_of_readsWidth {item : Reader α} {n : Nat} {value : Bytes → α}
    (reads : ReadsWidth item n value) : Steady item := by
  intro s more
  have longer : (s.extend more).rest.length = s.rest.length + more.length := List.length_append
  rw [reads s, reads (s.extend more), longer]
  by_cases enough : n ≤ s.rest.length
  · have front : (s.extend more).rest.take n = s.rest.take n := List.take_append_of_le_length enough
    have back : (s.extend more).rest.drop n = s.rest.drop n ++ more :=
      List.drop_append_of_le_length enough
    rw [if_pos enough, if_pos (by omega), front, back]
    exact .value _ ⟨s.rest.drop n, s.offset + n⟩
  · rw [if_neg enough]
    by_cases resumes : n ≤ s.rest.length + more.length
    · exact .resumed (by omega) (by omega)
    · rw [if_neg resumes, Nat.sub_add_eq]
      exact .short (by omega)

theorem steady_take (n : Nat) : Steady (take n) := steady_of_readsWidth (readsWidth_take n)

theorem steady_u8 : Steady u8 := steady_of_readsWidth readsWidth_u8

theorem steady_u16 : Steady u16 := steady_of_readsWidth readsWidth_u16

theorem steady_u32 : Steady u32 := steady_of_readsWidth readsWidth_u32

/-! ## Reads one behind the other -/

theorem steady_pure (a : α) : Steady (pure a) := fun s _ => .value a s

theorem steady_throw (e : FormatError) : Steady (throw e : Reader α) := fun s _ => .fault e s

theorem Steady.bind {x : Reader α} {f : α → Reader β} (hx : Steady x) (hf : ∀ a, Steady (f a)) :
    Steady (x >>= f) := by
  intro s more
  have first := hx s more
  show Prolongs more (EStateM.bind x f s) (EStateM.bind x f (s.extend more))
  unfold EStateM.bind
  generalize x s = r at first
  generalize x (s.extend more) = r' at first
  cases first with
  | value a t => exact hf a t more
  | fault e t => exact .fault e t
  | short few => exact .short few
  | resumed pos enough => exact .resumed pos enough

theorem Steady.ite {p : Prop} [Decidable p] {x y : Reader α} (hx : p → Steady x)
    (hy : ¬p → Steady y) : Steady (if p then x else y) := by
  split
  · next holds => exact hx holds
  · next fails => exact hy fails

theorem Steady.unless {p : Prop} [Decidable p] {e : FormatError} {f : PUnit → Reader α}
    {x : Reader α} (hx : Steady x) : Steady (if p then throw e >>= f else x) :=
  Steady.ite (fun _ => steady_throw e) fun _ => hx

theorem steady_u64 : Steady u64 :=
  steady_u32.bind fun _ => steady_u32.bind fun _ => steady_pure _

theorem Steady.times {item : Reader α} (steady : Steady item) (n : Nat) :
    Steady (times n item) := by
  have onto (acc : List α) : Steady (timesOnto item n acc) := by
    induction n generalizing acc with
    | zero => exact steady_pure _
    | succ n ih => exact steady.bind fun a => ih (a :: acc)
  exact onto []

/-! ## Up to the end -/

/-- Refuses bytes that are left. -/
def atEnd (a : α) : Reader α := do
  let unread ← remaining
  if unread ≠ 0 then throw (.trailingBytes unread)
  return a

/-- The reader comes to the end of its parts by itself and then checks that the bytes end there
too. -/
def Delimits (item : Reader α) : Prop := ∃ parts, Steady parts ∧ item = parts >>= atEnd

theorem delimits_atEnd (a : α) : Delimits (atEnd a) :=
  ⟨pure a, steady_pure a, (pure_bind a atEnd).symm⟩

theorem delimits_throw (e : FormatError) : Delimits (throw e : Reader α) :=
  ⟨throw e, steady_throw e, rfl⟩

theorem Steady.delimits_bind {x : Reader α} {f : α → Reader β} (hx : Steady x)
    (hf : ∀ a, Delimits (f a)) : Delimits (x >>= f) := by
  obtain ⟨parts, split⟩ := Classical.axiomOfChoice hf
  refine ⟨x >>= parts, hx.bind fun a => (split a).1, ?_⟩
  rw [bind_assoc]
  exact bind_congr fun a => (split a).2

theorem Delimits.unless {p : Prop} [Decidable p] {e : FormatError} {f : PUnit → Reader α}
    {x : Reader α} (hx : Delimits x) : Delimits (if p then throw e >>= f else x) := by
  split
  · exact delimits_throw e
  · exact hx

variable {item : Reader α} {a : α} {bytes more : Bytes}

theorem Delimits.exists_parts (delimits : Delimits item) (h : parse item bytes = .ok a) :
    ∃ parts t, Steady parts ∧ item = parts >>= atEnd ∧ parts (Cursor.start bytes) = .ok a t ∧
      t.rest = [] := by
  obtain ⟨parts, steady, rfl⟩ := delimits
  obtain ⟨t, read⟩ := parse_eq_ok_iff.1 h
  simp only [bind_eq_ok_iff, atEnd, guard_eq_ok_iff, remaining_eq_ok_iff, pure_eq_ok_iff] at read
  obtain ⟨b, u, first, unread, v, ⟨length, rfl⟩, none, rfl, rfl⟩ := read
  refine ⟨parts, u, steady, rfl, first, List.length_eq_zero_iff.1 ?_⟩
  rw [length]
  exact Decidable.not_not.1 none

/-- In front of the end, bytes are missing, and not more than were cut off. -/
theorem Delimits.truncated_of_parse_append (delimits : Delimits item)
    (h : parse item (bytes ++ more) = .ok a) (cut : more ≠ []) :
    ∃ offset needed, parse item bytes = .error (.truncated offset needed) ∧
      0 < needed ∧ needed ≤ more.length := by
  obtain ⟨parts, t, steady, rfl, whole, ended⟩ := delimits.exists_parts h
  have prolongs : Prolongs more (parts (Cursor.start bytes)) (.ok a t) :=
    whole ▸ steady (Cursor.start bytes) more
  generalize front : parts (Cursor.start bytes) = r at prolongs
  cases prolongs with
  | value a t => exact absurd (List.append_eq_nil_iff.1 ended).2 cut
  | @resumed offset needed u _ pos enough =>
    refine ⟨offset, needed, ?_, pos, enough⟩
    have stops : (parts >>= atEnd) (Cursor.start bytes) = .error (.truncated offset needed) u := by
      show EStateM.bind parts atEnd (Cursor.start bytes) = _
      rw [EStateM.bind, front]
    rw [parse, EStateM.run, stops]

/-- What follows the end is counted. -/
theorem Delimits.trailing_of_parse (delimits : Delimits item) (h : parse item bytes = .ok a)
    (follows : more ≠ []) : parse item (bytes ++ more) = .error (.trailingBytes more.length) := by
  obtain ⟨parts, t, steady, rfl, whole, ended⟩ := delimits.exists_parts h
  have prolongs : Prolongs more (.ok a t) (parts (Cursor.start (bytes ++ more))) :=
    whole ▸ steady (Cursor.start bytes) more
  generalize longer : parts (Cursor.start (bytes ++ more)) = r at prolongs
  cases prolongs
  have left : (t.extend more).rest = more := by rw [Cursor.extend, ended, List.nil_append]
  have stops : (parts >>= atEnd) (Cursor.start (bytes ++ more)) =
      .error (.trailingBytes more.length) (t.extend more) := by
    show EStateM.bind parts atEnd (Cursor.start (bytes ++ more)) = _
    rw [EStateM.bind, longer]
    show (if (t.extend more).rest.length ≠ 0 then _ else _ : Reader α) (t.extend more) = _
    rw [left, if_pos fun none => follows (List.length_eq_zero_iff.1 none)]
    rfl
  rw [parse, EStateM.run, stops]

end Reader

open Reader

/-! ## The parts of a class file -/

theorem Constant.steady_read (index : Nat) : Steady (read index) := by
  unfold read
  refine steady_u8.bind fun tag => ?_
  split
  case h_1 =>
    exact steady_u16.bind fun length => (steady_take _).bind fun bytes => steady_pure _
  case h_2 | h_3 => exact steady_u32.bind fun bits => steady_pure _
  case h_4 | h_5 => exact steady_u64.bind fun bits => steady_pure _
  case h_6 | h_7 | h_13 | h_16 | h_17 => exact steady_u16.bind fun index => steady_pure _
  case h_12 => exact steady_u8.bind fun kind => steady_u16.bind fun reference => steady_pure _
  case h_18 => exact steady_throw _
  all_goals exact steady_u16.bind fun owner => steady_u16.bind fun pair => steady_pure _

namespace Pool

theorem steady_readSlots (count : Nat) (slots : Array (Option Constant)) :
    Steady (readSlots count slots) := by
  induction slots using readSlots.induct count with
  | case1 slots short wide narrow =>
    rw [readSlots, dif_pos short]
    refine (Constant.steady_read _).bind fun c => Steady.ite (fun _ => ?_) fun _ => narrow c
    exact Steady.ite (wide c) fun _ => steady_throw _
  | case2 slots full =>
    rw [readSlots, dif_neg full]
    exact steady_pure _

theorem steady_read : Steady read := by
  unfold read
  refine steady_u16.bind fun count => Steady.unless ?_
  refine (steady_readSlots _ _).bind fun slots => ?_
  dsimp only
  split
  · exact steady_pure _
  · exact steady_throw _

end Pool

namespace Attribute

theorem steady_read : Steady read :=
  steady_u16.bind fun _ => steady_u32.bind fun _ => (steady_take _).bind fun _ => steady_pure _

theorem steady_readAll : Steady readAll :=
  steady_u16.bind fun _ => steady_read.times _

end Attribute

namespace ClassFile

theorem steady_require (check : Except FormatError Unit) : Steady (require check) := by
  unfold require
  split
  · exact steady_pure ()
  · exact steady_throw _

variable (pool : Pool)

theorem steady_readMember : Steady (readMember pool) := by
  unfold readMember
  refine steady_u16.bind fun access => steady_u16.bind fun name => steady_u16.bind fun descriptor =>
    (steady_require _).bind fun _ => (steady_require _).bind fun _ =>
    Attribute.steady_readAll.bind fun raw => ?_
  -- a body is read from the bytes of its attribute, so its faults do not depend on what follows
  split
  · exact steady_pure _
  · exact steady_throw _

theorem steady_readMembers : Steady (readMembers pool) :=
  steady_u16.bind fun _ => ((steady_readMember pool).times _).bind fun _ => steady_pure _

theorem steady_readClassIndex : Steady (readClassIndex pool) :=
  steady_u16.bind fun _ => (steady_require _).bind fun _ => steady_pure _

theorem steady_readOptionalClassIndex : Steady (readOptionalClassIndex pool) :=
  steady_u16.bind fun _ =>
    Steady.ite (fun _ => (steady_require _).bind fun _ => steady_pure _) fun _ => steady_pure _

theorem delimits_read : Delimits read := by
  unfold read
  refine steady_u32.delimits_bind fun found => Delimits.unless ?_
  refine steady_u16.delimits_bind fun minor => steady_u16.delimits_bind fun major =>
    Delimits.unless ?_
  refine Pool.steady_read.delimits_bind fun pool => steady_u16.delimits_bind fun access => ?_
  refine (steady_readClassIndex pool).delimits_bind fun thisClass =>
    (steady_readOptionalClassIndex pool).delimits_bind fun superClass => ?_
  refine steady_u16.delimits_bind fun count =>
    ((steady_readClassIndex pool).times _).delimits_bind fun interfaces => ?_
  refine (steady_readMembers pool).delimits_bind fun fields =>
    (steady_readMembers pool).delimits_bind fun methods => ?_
  refine Attribute.steady_readAll.delimits_bind fun attributes =>
    (steady_require _).delimits_bind fun _ => ?_
  exact delimits_atEnd _

/-- A class file tells where it ends: cut anywhere, it lacks bytes, at most those cut off, and
bytes behind it are counted and refused. No other fault comes first, though a cut may be in front
of any check. -/
theorem truncated_and_trailing_of_parse {bytes : Bytes} {c : ClassFile}
    (h : parse bytes = .ok c) :
    (∀ front back, front ++ back = bytes → back ≠ [] →
      ∃ offset needed, parse front = .error (.truncated offset needed) ∧
        0 < needed ∧ needed ≤ back.length) ∧
    ∀ more, more ≠ [] → parse (bytes ++ more) = .error (.trailingBytes more.length) := by
  constructor
  · rintro front back rfl cut
    exact delimits_read.truncated_of_parse_append h cut
  · intro more follows
    exact delimits_read.trailing_of_parse h follows

/-- The class cut in the second half of its 8-byte constant, and followed by three bytes. -/
theorem longClassBytes_cut_and_followed :
    parse longClassBytes = .ok longClass ∧
    (∃ offset needed,
      parse (longClassBytes.take 37) = .error (.truncated offset needed) ∧
        0 < needed ∧ needed ≤ (longClassBytes.drop 37).length) ∧
    parse (longClassBytes ++ [0, 0, 7]) = .error (.trailingBytes 3) := by
  obtain ⟨cut, followed⟩ := truncated_and_trailing_of_parse parse_longClass
  exact ⟨parse_longClass, cut _ _ (List.take_append_drop 37 _) (by decide),
    followed [0, 0, 7] (by decide)⟩

end ClassFile

end Clarify
