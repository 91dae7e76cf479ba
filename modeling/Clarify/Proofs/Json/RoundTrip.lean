import Clarify.Json.Printer
import Clarify.Json.Reader
import Clarify.Proofs.Text.ModifiedUtf8
import Mathlib.Data.List.DropRight

/-!
# Objects of texts read back

An object that has texts under its keys is read back from its printed form: the same keys with the
same texts, in the same order. Nothing is asked of the texts. Quotes, backslashes and control
characters are escaped, and every other character stands for itself, so the first quote that is
not escaped is the closing one.

Results:
* `unitsOnto_escaped`: what is written for a character is read as its units.
* `string_escapes`: a text in quotes is read back, whatever stands behind it.
* `parse?_pretty_textsOf`: an object of texts is read back.
-/

namespace Clarify

namespace Hex

theorem toList_ofNat_four (n : Nat) : (ofNat 4 n).toList =
    [digit (n / 0x1000 % 16), digit (n / 0x100 % 16), digit (n / 0x10 % 16), digit (n % 16)] := by
  have last : n / Nat.pow 16 0 = n := Nat.div_one n
  rw [ofNat, String.toList_ofList]
  show [digit (n / 0x1000 % 16), digit (n / 0x100 % 16), digit (n / 0x10 % 16),
    digit (n / Nat.pow 16 0 % 16)] = _
  rw [last]

end Hex

namespace Json

/-! ## Strings -/

/-- What is written for a text between its quotes. -/
def escapes (text : String) : List Char := text.toList.flatMap fun c => (Printer.escaped c).toList

theorem toList_quoted (text : String) :
    (Printer.quoted text).toList = '"' :: (escapes text ++ ['"']) := by
  have fold (chars : List Char) (out : String) :
      (chars.foldl (fun out c => out ++ Printer.escaped c) out).toList =
        out.toList ++ chars.flatMap fun c => (Printer.escaped c).toList := by
    induction chars generalizing out with
    | nil => simp
    | cons c chars ih => rw [List.foldl_cons, ih, String.toList_append, List.flatMap_cons,
        List.append_assoc]
  rw [Printer.quoted, String.toList_append, String.foldl_eq_foldl_toList, fold]
  rfl

namespace Reader

variable {acc : List UInt16} {rest : List Char}

/-- A unit is read back from its four digits. -/
theorem unit?_digits {n : Nat} (h : n < 0x10000) :
    unit? (Hex.digit (n / 0x1000 % 16)) (Hex.digit (n / 0x100 % 16)) (Hex.digit (n / 0x10 % 16))
      (Hex.digit (n % 16)) = some (UInt16.ofNat n) := by
  have value (n : Nat) : Hex.value? (Hex.digit (n % 16)) = some (n % 16) :=
    Hex.value?_digit _ (Nat.mod_lt n (by decide))
  have whole :
      ((n / 0x1000 % 16 * 16 + n / 0x100 % 16) * 16 + n / 0x10 % 16) * 16 + n % 16 = n := by
    omega
  simp only [unit?, value, Option.bind_eq_bind, Option.bind_some, whole]
  rfl

/-- A character that needs no escape stands for itself. -/
theorem unitsOnto_plain {c : Char} (quote : c ≠ '"') (backslash : c ≠ '\\') (h : 0x20 ≤ c.toNat) :
    unitsOnto acc (c :: rest) = unitsOnto ((Utf16.ofChar c).reverse ++ acc) rest := by
  have shown : (decide (c.toNat < 0x20) || c == '\\') = false := by simp [h, backslash]
  rw [unitsOnto, shown]
  · simp
  · exact quote
  · intro _ _ _ _ _ same
    exact absurd same backslash
  · intro _ _ same
    exact absurd same backslash

/-- What is written for a character is read as its units. -/
theorem unitsOnto_escaped (acc : List UInt16) (c : Char) (rest : List Char) :
    unitsOnto acc ((Printer.escaped c).toList ++ rest) =
      unitsOnto ((Utf16.ofChar c).reverse ++ acc) rest := by
  unfold Printer.escaped
  split
  case h_8 quote backslash _ _ _ _ _ =>
    split
    · next control =>
      have basic : Utf16.ofChar c = [UInt16.ofNat c.toNat] := if_pos (by omega)
      rw [String.toList_append, Hex.toList_ofNat_four, basic]
      show unitsOnto acc ('\\' :: 'u' :: _ :: _ :: _ :: _ :: rest) = _
      rw [unitsOnto, unit?_digits (by omega)]
      rfl
    · next visible =>
      rw [Char.toString_eq_singleton, String.toList_singleton]
      exact unitsOnto_plain quote backslash (Nat.le_of_not_lt visible)
  all_goals rfl

theorem unitsOnto_escapes (chars : List Char) (acc : List UInt16) (rest : List Char) :
    unitsOnto acc (chars.flatMap (fun c => (Printer.escaped c).toList) ++ '"' :: rest) =
      some (acc.reverse ++ Utf16.ofChars chars, rest) := by
  induction chars generalizing acc with
  | nil => rw [List.flatMap_nil, List.nil_append, unitsOnto, Utf16.ofChars, List.flatMap_nil,
      List.append_nil]
  | cons c chars ih =>
    rw [List.flatMap_cons, List.append_assoc, unitsOnto_escaped, ih, Utf16.ofChars_cons,
      List.reverse_append, List.reverse_reverse, List.append_assoc]

/-- A text in quotes is read back, whatever stands behind it. -/
theorem string_escapes (text : String) (rest : List Char) :
    string (escapes text ++ '"' :: rest) = some (.string text, rest) := by
  have units : Utf16.decode? (Utf16.ofChars text.toList) = some text := Utf16.decode?_ofString text
  rw [string, escapes, unitsOnto_escapes, List.reverse_nil, List.nil_append, Option.map_some]
  simp only [units]

/-! ## Members -/

theorem skipBlanks_newLine (depth : Nat) {c : Char} (h : isBlank c = false) (rest : List Char) :
    skipBlanks ((Printer.newLine depth).toList ++ c :: rest) = c :: rest := by
  have blanks : ∀ b ∈ (Printer.newLine depth).toList, isBlank b = true := by
    intro b mem
    rw [Printer.newLine, String.toList_append, List.mem_append] at mem
    obtain new | blank := mem
    · rw [List.mem_singleton.1 new]
      rfl
    · rw [String.toList_ofList] at blank
      rw [List.eq_of_mem_replicate blank]
      rfl
  rw [skipBlanks, List.dropWhile_append_of_pos blanks, List.dropWhile_cons_of_neg (by simp [h])]

theorem skipBlanks_of_not {c : Char} (h : isBlank c = false) (rest : List Char) :
    skipBlanks (c :: rest) = c :: rest :=
  List.dropWhile_cons_of_neg (by simp [h])

/-- A key is read back with what stands behind its colon. -/
theorem key?_quoted (key : String) (rest : List Char) :
    key? ((Printer.quoted key).toList ++ ':' :: rest) = some (some key, rest) := by
  rw [toList_quoted, List.cons_append, List.append_assoc, List.singleton_append, key?,
    string_escapes]
  simp only [skipBlanks_of_not (c := ':') rfl]
  rfl

/-- A text is read back behind a blank. -/
theorem value_quoted (steps : Nat) (text : String) (rest : List Char) :
    value (steps + 1) (' ' :: ((Printer.quoted text).toList ++ rest)) =
      some (.string text, rest) := by
  rw [toList_quoted, List.cons_append, List.append_assoc, List.singleton_append, value]
  exact string_escapes text rest

/-- What is written for a member. -/
def memberChars (depth : Nat) (row : String × String) : List Char :=
  (Printer.newLine depth).toList ++ ((Printer.quoted row.1).toList ++
    ':' :: ' ' :: (Printer.quoted row.2).toList)

/-- A member, as it is read. -/
def memberOf (row : String × String) : Option String × Json := (some row.1, .string row.2)

theorem skipBlanks_memberChars (depth : Nat) (row : String × String) (rest : List Char) :
    skipBlanks (memberChars depth row ++ rest) =
      (Printer.quoted row.1).toList ++ ':' :: ' ' :: ((Printer.quoted row.2).toList ++ rest) := by
  rw [memberChars, toList_quoted row.1]
  simp only [List.append_assoc, List.cons_append]
  exact skipBlanks_newLine depth rfl _

/-- One member is read back, and what stands behind it decides how it goes on. -/
theorem members_memberChars (steps depth : Nat) (row : String × String)
    (acc : List (Option String × Json)) (rest : List Char) :
    members (steps + 2) acc (memberChars depth row ++ rest) =
      match skipBlanks rest with
      | ',' :: rest => members (steps + 1) (memberOf row :: acc) rest
      | '\x7d' :: rest => some (objectOf (memberOf row :: acc).reverse, rest)
      | _ => none := by
  rw [members, skipBlanks_memberChars, key?_quoted]
  simp only [value_quoted]
  rfl

/-- Members are read back one after the other, up to the closing brace. -/
theorem members_flatMap {tail rest : List Char} (closes : skipBlanks tail = '\x7d' :: rest)
    (depth : Nat) (row : String × String) (rows : List (String × String)) {steps : Nat}
    (enough : rows.length + 2 ≤ steps) (acc : List (Option String × Json)) :
    members steps acc (memberChars depth row ++
        (rows.flatMap (fun row => ',' :: memberChars depth row) ++ tail)) =
      some (objectOf (acc.reverse ++ (row :: rows).map memberOf), rest) := by
  obtain ⟨steps, rfl⟩ := Nat.exists_eq_add_of_le' (Nat.le_of_add_left_le enough)
  induction rows generalizing row steps acc with
  | nil =>
    rw [List.flatMap_nil, List.nil_append, members_memberChars, closes, List.reverse_cons]
    rfl
  | cons next rows ih =>
    obtain ⟨fewer, rfl⟩ := Nat.exists_eq_add_of_le' (show 1 ≤ steps by simp at enough; omega)
    rw [members_memberChars, List.flatMap_cons, List.cons_append, List.cons_append,
      skipBlanks_of_not rfl]
    show members (fewer + 2) _ _ = _
    rw [List.append_assoc, ih next _ fewer, List.reverse_cons, List.append_assoc]
    · rfl
    · simp at enough
      omega

theorem objectOf_map (rows : List (String × String)) :
    objectOf (rows.map memberOf) = .object (rows.map fun row => (row.1, .string row.2)) := by
  have all : (rows.map memberOf).mapM (fun x => x.1.map (·, x.2)) =
      some (rows.map fun row => (row.1, Json.string row.2)) := by
    induction rows with
    | nil => rfl
    | cons row rows ih =>
      rw [List.map_cons, List.mapM_cons, ih]
      rfl
  rw [objectOf]
  simp only [all]

theorem members_skipBlanks (steps : Nat) (acc : List (Option String × Json)) (text : List Char) :
    members steps acc (skipBlanks text) = members steps acc text := by
  cases steps with
  | zero => rfl
  | succ steps => rw [members, members, skipBlanks, skipBlanks, List.dropWhile_idempotent]

/-- An object with a member is what its members are. -/
theorem value_brace (steps depth : Nat) (row : String × String) (rest : List Char) :
    value (steps + 1) ('\x7b' :: (memberChars depth row ++ rest)) =
      members steps [] (memberChars depth row ++ rest) := by
  rw [value, skipBlanks_of_not rfl, ← members_skipBlanks]
  simp only [skipBlanks_memberChars, toList_quoted row.1]
  rfl

end Reader

/-! ## Objects -/

/-- An object of texts to be printed. -/
def textsOf (rows : List (String × String)) : Output :=
  .record (rows.map fun row => (row.1, .text row.2))

theorem toList_members (depth : Nat) (rows : List (String × String)) :
    (Printer.members depth (rows.map fun row => (row.1, .text row.2))).toList =
      rows.flatMap fun row => ',' :: Reader.memberChars depth row := by
  induction rows with
  | nil => rfl
  | cons row rows ih =>
    rw [List.map_cons, Printer.members, Printer.value, List.flatMap_cons, ← ih, Reader.memberChars]
    simp

theorem toList_pretty_cons (row : String × String) (rows : List (String × String)) :
    (textsOf (row :: rows)).pretty.toList = '\x7b' :: (Reader.memberChars 1 row ++
      (rows.flatMap (fun row => ',' :: Reader.memberChars 1 row) ++
        ((Printer.newLine 0).toList ++ ['\x7d']))) := by
  rw [textsOf, Output.pretty, List.map_cons, Printer.value, Printer.value, ← toList_members,
    Reader.memberChars]
  simp

theorem value_pretty_textsOf (rows : List (String × String)) {steps : Nat}
    (enough : rows.length + 2 ≤ steps) :
    Reader.value steps (textsOf rows).pretty.toList =
      some (.object (rows.map fun row => (row.1, .string row.2)), []) := by
  obtain ⟨steps, rfl⟩ := Nat.exists_eq_add_of_le' (Nat.le_of_add_left_le enough)
  cases rows with
  | nil => rfl
  | cons row rows =>
    have closes : Reader.skipBlanks ((Printer.newLine 0).toList ++ ['\x7d']) = ['\x7d'] :=
      Reader.skipBlanks_newLine 0 rfl []
    have fewer : rows.length + 2 ≤ steps + 1 := by simpa using enough
    rw [toList_pretty_cons, Reader.value_brace,
      Reader.members_flatMap closes 1 row rows fewer, List.reverse_nil, List.nil_append,
      Reader.objectOf_map]

/-- Each member takes a character at least, so there are steps enough. -/
theorem length_le_pretty_textsOf (rows : List (String × String)) :
    rows.length ≤ (textsOf rows).pretty.toList.length := by
  have each (rows : List (String × String)) :
      rows.length ≤ (rows.flatMap fun row => ',' :: Reader.memberChars 1 row).length := by
    induction rows with
    | nil => exact Nat.zero_le _
    | cons row rows ih =>
      simp only [List.flatMap_cons, List.length_append, List.length_cons]
      omega
  cases rows with
  | nil => exact Nat.zero_le _
  | cons row rows =>
    have fewer := each rows
    rw [toList_pretty_cons]
    simp only [List.length_cons, List.length_append]
    omega

/-- An object of texts is read back. -/
theorem parse?_pretty_textsOf (rows : List (String × String)) :
    Json.parse? (textsOf rows).pretty =
      some (.object (rows.map fun row => (row.1, .string row.2))) := by
  have enough : rows.length + 2 ≤ 2 * (textsOf rows).pretty.toList.length + 2 := by
    have length := length_le_pretty_textsOf rows
    omega
  rw [Json.parse?]
  simp only [value_pretty_textsOf rows enough]
  rfl

end Json

end Clarify
