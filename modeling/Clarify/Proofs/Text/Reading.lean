import Clarify.Text
import Clarify.Text.Utf8

/-!
# Text files read back

A text that is written to a file as UTF-8 is read back as it was. In a file that was there before,
the reading stays in step if what was there ends with a newline: a byte of one-byte characters is
never part of another character, so it ends whatever stands in front of it, be it text or not.

Results:
* `decodeOnto_encode`, `decode_encode`: a text is read back from its bytes.
* `toOption_decode_newline`: a text behind a newline is read as if it stood alone.
* `lines_append`: the lines of two texts, of which the first ends with a newline.
* `lines_unlines`: lines that are written one by one are read back.
-/

namespace Clarify

namespace Utf8

/-! ## One character -/

theorem finish_cons {b : UInt8} {seen tails low high bits : Nat} (rest : Bytes)
    (lo : low ≤ b.toNat) (hi : b.toNat ≤ high) :
    finish seen (tails + 1) low high bits (b :: rest) =
      finish (seen + 1) tails 0x80 0xBF (bits * 0x40 + (b.toNat - 0x80)) rest := by
  rw [finish, if_pos ⟨lo, hi⟩]

theorem lead?_one {b : UInt8} (h : b.toNat < 0x80) : lead? b = some ⟨0, 0x80, 0xBF, b.toNat⟩ := by
  unfold lead?
  simp only [h, if_true]

theorem lead?_two {b : UInt8} (lo : 0xC2 ≤ b.toNat) (hi : b.toNat < 0xE0) :
    lead? b = some ⟨1, 0x80, 0xBF, b.toNat - 0xC0⟩ := by
  unfold lead?
  simp only
  rw [if_neg (by omega), if_neg (by omega), if_pos hi]

theorem lead?_three {b : UInt8} (lo : 0xE0 ≤ b.toNat) (hi : b.toNat < 0xF0) :
    lead? b = some ⟨2, if b.toNat = 0xE0 then 0xA0 else 0x80, if b.toNat = 0xED then 0x9F else 0xBF,
      b.toNat - 0xE0⟩ := by
  unfold lead?
  simp only
  rw [if_neg (by omega), if_neg (by omega), if_neg (by omega)]
  by_cases first : b.toNat = 0xE0
  · rw [if_pos first, if_pos first, if_neg (by omega), first]
  by_cases surrogate : b.toNat = 0xED
  · rw [if_neg first, if_pos surrogate, if_neg first, if_pos surrogate, surrogate]
  · rw [if_neg first, if_neg surrogate, if_pos hi, if_neg first, if_neg surrogate]

theorem lead?_four {b : UInt8} (lo : 0xF0 ≤ b.toNat) (hi : b.toNat ≤ 0xF4) :
    lead? b = some ⟨3, if b.toNat = 0xF0 then 0x90 else 0x80, if b.toNat = 0xF4 then 0x8F else 0xBF,
      b.toNat - 0xF0⟩ := by
  unfold lead?
  simp only
  rw [if_neg (by omega), if_neg (by omega), if_neg (by omega), if_neg (by omega),
    if_neg (by omega), if_neg (by omega)]
  by_cases first : b.toNat = 0xF0
  · rw [if_pos first, if_pos first, if_neg (by omega), first]
  by_cases last : b.toNat = 0xF4
  · rw [if_neg first, if_neg (by omega), if_pos last, if_neg first, if_pos last, last]
  · rw [if_neg first, if_pos (by omega), if_neg first, if_neg last]

theorem low_of_lead? {b : UInt8} {lead : Lead} (h : lead? b = some lead) : 0x80 ≤ lead.low := by
  have small : b.toNat < 0x80 ∨ 0x80 ≤ b.toNat ∧ b.toNat < 0xC2 ∨ 0xC2 ≤ b.toNat ∧ b.toNat < 0xE0 ∨
      0xE0 ≤ b.toNat ∧ b.toNat < 0xF0 ∨ 0xF0 ≤ b.toNat ∧ b.toNat ≤ 0xF4 ∨ 0xF4 < b.toNat := by
    omega
  rcases small with one | ⟨lo, hi⟩ | ⟨lo, hi⟩ | ⟨lo, hi⟩ | ⟨lo, hi⟩ | large
  · rw [lead?_one one] at h
    cases h
    exact Nat.le_refl _
  · unfold lead? at h
    simp only at h
    rw [if_neg (by omega), if_pos hi] at h
    cases h
  · rw [lead?_two lo hi] at h
    cases h
    exact Nat.le_refl _
  · rw [lead?_three lo hi] at h
    cases h
    dsimp only
    split <;> omega
  · rw [lead?_four lo hi] at h
    cases h
    dsimp only
    split <;> omega
  · unfold lead? at h
    simp only at h
    repeat rw [if_neg (by omega)] at h
    cases h

/-- A character is read behind others from its leading byte and those that it announces. -/
theorem decodeOnto_of_finish {b : UInt8} {lead : Lead} {tail rest : Bytes} {c : Char}
    (acc : List Char) (offset : Nat) (announces : lead? b = some lead)
    (length : tail.length = lead.tails)
    (reads : finish 1 lead.tails lead.low lead.high lead.bits (tail ++ rest) = .char c) :
    decodeOnto acc offset (b :: tail ++ rest) =
      decodeOnto (c :: acc) (offset + (b :: tail).length) rest := by
  rw [List.cons_append, decodeOnto]
  simp only [announces, reads]
  rw [← length, List.drop_left, List.length_cons, Nat.add_right_comm, Nat.add_assoc]

theorem decodeOnto_encodeChar (acc : List Char) (offset : Nat) (c : Char) (rest : Bytes) :
    decodeOnto acc offset (String.utf8EncodeChar c ++ rest) =
      decodeOnto (c :: acc) (offset + (String.utf8EncodeChar c).length) rest := by
  have valid : c.toNat < 0xD800 ∨ 0xDFFF < c.toNat ∧ c.toNat < 0x110000 := c.valid
  have byte {n : Nat} (small : n < 256) : (UInt8.ofNat n).toNat = n :=
    UInt8.toNat_ofNat_of_lt small
  have again {n : Nat} (value : n = c.toNat) : Step.char (Char.ofNat n) = .char c := by
    rw [value, Char.ofNat_toNat]
  unfold String.utf8EncodeChar
  have same : c.val.toNat = c.toNat := rfl
  simp only [same]
  split
  · next one =>
    refine decodeOnto_of_finish acc offset (lead?_one ?_) rfl ?_
    · rw [byte (by omega)]
      omega
    · rw [finish, byte (by omega)]
      exact again rfl
  split
  · next more two =>
    have first := byte (n := c.toNat / 64 % 32 + 192) (by omega)
    have second := byte (n := c.toNat % 64 + 128) (by omega)
    refine decodeOnto_of_finish acc offset (lead?_two ?_ ?_) rfl ?_
    · omega
    · omega
    · dsimp only
      rw [List.singleton_append, finish_cons _ (by omega) (by omega), finish]
      exact again (by omega)
  split
  · next more more three =>
    have first := byte (n := c.toNat / 4096 % 16 + 224) (by omega)
    have second := byte (n := c.toNat / 64 % 64 + 128) (by omega)
    have third := byte (n := c.toNat % 64 + 128) (by omega)
    refine decodeOnto_of_finish acc offset (lead?_three ?_ ?_) rfl ?_
    · omega
    · omega
    · dsimp only
      rw [List.cons_append, List.singleton_append, finish_cons, finish_cons _ (by omega) (by omega),
        finish]
      · exact again (by omega)
      · split <;> omega
      · split <;> omega
  · next more more' more'' =>
    have first := byte (n := c.toNat / 262144 % 8 + 240) (by omega)
    have second := byte (n := c.toNat / 4096 % 64 + 128) (by omega)
    have third := byte (n := c.toNat / 64 % 64 + 128) (by omega)
    have fourth := byte (n := c.toNat % 64 + 128) (by omega)
    refine decodeOnto_of_finish acc offset (lead?_four ?_ ?_) rfl ?_
    · omega
    · omega
    · dsimp only
      rw [List.cons_append, List.cons_append, List.singleton_append, finish_cons,
        finish_cons _ (by omega) (by omega), finish_cons _ (by omega) (by omega), finish]
      · exact again (by omega)
      · split <;> omega
      · split <;> omega

/-! ## Texts -/

theorem encode_eq (text : String) : encode text = text.toList.flatMap String.utf8EncodeChar := by
  rw [encode, String.toUTF8, ← String.utf8Encode_toList, List.utf8Encode,
    List.toList_data_toByteArray]

/-- A text is read behind characters from its bytes. -/
theorem decodeOnto_encode (acc : List Char) (offset : Nat) (text : String) :
    decodeOnto acc offset (encode text) = .ok (String.ofList (acc.reverse ++ text.toList)) := by
  rw [encode_eq]
  induction text.toList generalizing acc offset with
  | nil => rw [List.flatMap_nil, decodeOnto, List.append_nil]
  | cons c chars ih =>
    rw [List.flatMap_cons, decodeOnto_encodeChar, ih, List.reverse_cons, List.append_assoc,
      List.singleton_append]

/-- A text is read back from its bytes. -/
theorem decode_encode (text : String) : decode (encode text) = .ok text := by
  rw [decode, decodeOnto_encode, List.reverse_nil, List.nil_append, String.ofList_toList]

/-! ## Behind other bytes -/

theorem finish_append (rest more : Bytes) (seen tails low high bits : Nat) :
    (∀ c, finish seen tails low high bits rest = .char c → tails ≤ rest.length ∧
      finish seen tails low high bits (rest ++ more) = .char c) ∧
    ∀ size, finish seen tails low high bits rest = .invalid size →
      finish seen tails low high bits (rest ++ more) = .invalid size := by
  induction tails generalizing seen low high bits rest with
  | zero => simp [finish]
  | succ tails ih =>
    cases rest with
    | nil => simp [finish]
    | cons b rest =>
      rw [List.cons_append, finish, finish]
      split
      · obtain ⟨reads, stops⟩ := ih rest (seen + 1) 0x80 0xBF (bits * 0x40 + (b.toNat - 0x80))
        refine ⟨fun c read => ?_, stops⟩
        obtain ⟨enough, same⟩ := reads c read
        exact ⟨Nat.succ_le_succ enough, same⟩
      · simp

/-- Where a character does not end, it does not go on with a byte of one-byte characters. -/
theorem finish_ascii {rest : Bytes} {seen tails low high bits : Nat} {a : UInt8}
    (ascii : a.toNat < 0x80) (above : 0x80 ≤ low)
    (short : finish seen tails low high bits rest = .incomplete) (more : Bytes) :
    ∃ size, finish seen tails low high bits (rest ++ a :: more) = .invalid size := by
  induction tails generalizing seen low high bits rest with
  | zero => simp [finish] at short
  | succ tails ih =>
    cases rest with
    | nil =>
      rw [List.nil_append, finish, if_neg (by omega)]
      exact ⟨seen, rfl⟩
    | cons b rest =>
      rw [finish] at short
      rw [List.cons_append, finish]
      split
      · next inside =>
        rw [if_pos inside] at short
        exact ih (Nat.le_refl _) short
      · exact ⟨seen, rfl⟩

/-- What stands behind a text is read as it goes on. -/
theorem decodeOnto_append {acc : List Char} {offset : Nat} {bytes : Bytes} {text : String}
    (h : decodeOnto acc offset bytes = .ok text) (more : Bytes) :
    decodeOnto acc offset (bytes ++ more) =
      decodeOnto text.toList.reverse (offset + bytes.length) more := by
  fun_induction decodeOnto acc offset bytes with
  | case1 acc offset =>
    cases h
    simp
  | case2 => cases h
  | case3 acc offset b rest lead announces c reads ih =>
    obtain ⟨enough, same⟩ := (finish_append _ more _ _ _ _ _).1 c reads
    rw [List.cons_append, decodeOnto]
    simp only [announces, same]
    rw [List.drop_append_of_le_length enough, ih h, List.length_drop, List.length_cons]
    congr 1
    omega
  | case4 => cases h
  | case5 => cases h

/-- What is no text does not become one by what stands behind a byte of one-byte characters. -/
theorem exists_fault_append {acc : List Char} {offset : Nat} {bytes : Bytes} {fault : Fault}
    {a : UInt8} (ascii : a.toNat < 0x80) (h : decodeOnto acc offset bytes = .error fault)
    (more : Bytes) : ∃ fault', decodeOnto acc offset (bytes ++ a :: more) = .error fault' := by
  fun_induction decodeOnto acc offset bytes with
  | case1 => cases h
  | case2 acc offset b rest unknown =>
    rw [List.cons_append, decodeOnto]
    simp only [unknown]
    exact ⟨_, rfl⟩
  | case3 acc offset b rest lead announces c reads ih =>
    obtain ⟨enough, same⟩ := (finish_append _ (a :: more) _ _ _ _ _).1 c reads
    rw [List.cons_append, decodeOnto]
    simp only [announces, same]
    rw [List.drop_append_of_le_length enough]
    exact ih h
  | case4 acc offset b rest lead announces size reads =>
    rw [List.cons_append, decodeOnto]
    simp only [announces, (finish_append _ (a :: more) _ _ _ _ _).2 size reads]
    exact ⟨_, rfl⟩
  | case5 acc offset b rest lead announces short =>
    obtain ⟨size, reads⟩ := finish_ascii ascii (low_of_lead? announces) short more
    rw [List.cons_append, decodeOnto]
    simp only [announces, reads]
    exact ⟨_, rfl⟩

/-- A text behind a newline is read as if it stood alone. -/
theorem toOption_decode_newline (front : Bytes) (text : String) :
    (decode (front ++ 0x0A :: encode text)).toOption =
      (decode front).toOption.map fun before => before ++ "\n" ++ text := by
  rcases read : decode front with fault | before
  · obtain ⟨fault', still⟩ := exists_fault_append (a := 0x0A) (by decide) read (encode text)
    rw [decode, still]
    rfl
  · have newline : decodeOnto before.toList.reverse front.length (0x0A :: encode text) =
        decodeOnto ('\n' :: before.toList.reverse) (front.length + 1) (encode text) :=
      decodeOnto_encodeChar before.toList.reverse front.length '\n' (encode text)
    rw [decode, decodeOnto_append read, Nat.zero_add, newline, decodeOnto_encode]
    refine congrArg some (String.toList_inj.1 ?_)
    simp

end Utf8

/-! ## Lines -/

namespace Text

theorem linesOnto_done (done : List String) (line chars : List Char) :
    linesOnto done line chars = done.reverse ++ linesOnto [] line chars := by
  induction chars generalizing done line with
  | nil =>
    rw [linesOnto, linesOnto]
    split <;> simp
  | cons c chars ih =>
    rw [linesOnto, linesOnto]
    split
    · rw [ih, ih [lineOf line]]
      simp
    · exact ih done (c :: line)

/-- Behind a newline the lines are those of the rest. -/
theorem linesOnto_newline (line chars rest : List Char) :
    linesOnto [] line (chars ++ '\n' :: rest) =
      linesOnto [] line (chars ++ ['\n']) ++ linesOnto [] [] rest := by
  induction chars generalizing line with
  | nil =>
    rw [List.nil_append, List.nil_append, linesOnto, linesOnto, if_pos rfl, if_pos rfl,
      linesOnto_done]
    rfl
  | cons c chars ih =>
    rw [List.cons_append, List.cons_append, linesOnto, linesOnto]
    split
    · rw [linesOnto_done, ih, linesOnto_done [lineOf line] [] (chars ++ ['\n'])]
      simp
    · exact ih (c :: line)

/-- The lines of two texts, of which the first ends with a newline. -/
theorem lines_append (first second : String) :
    lines (first ++ "\n" ++ second) = lines (first ++ "\n") ++ lines second := by
  have newline : "\n".toList = ['\n'] := rfl
  simp only [lines, String.toList_append, newline, List.append_assoc, List.singleton_append]
  exact linesOnto_newline [] first.toList second.toList

theorem linesOnto_of_not_mem {chars : List Char} (one : '\n' ∉ chars) (line rest : List Char) :
    linesOnto [] line (chars ++ rest) = linesOnto [] (chars.reverse ++ line) rest := by
  induction chars generalizing line with
  | nil => rfl
  | cons c chars ih =>
    rw [List.mem_cons, not_or] at one
    rw [List.cons_append, linesOnto, if_neg fun eq => one.1 eq.symm, ih one.2]
    simp

/-- A row of lines as a text. -/
def unlines (rows : List String) : String := rows.foldl (fun text row => text ++ row ++ "\n") ""

theorem unlines_cons (row : String) (rows : List String) :
    unlines (row :: rows) = row ++ "\n" ++ unlines rows := by
  have onto (text : String) : rows.foldl (fun text row => text ++ row ++ "\n") text =
      text ++ unlines rows := by
    unfold unlines
    induction rows generalizing text with
    | nil => simp
    | cons row rows ih =>
      rw [List.foldl_cons, List.foldl_cons, ih, ih ("" ++ row ++ "\n")]
      simp [String.append_assoc]
  rw [unlines, List.foldl_cons, onto, String.empty_append]

theorem unlines_append (rows rows' : List String) :
    unlines (rows ++ rows') = unlines rows ++ unlines rows' := by
  induction rows with
  | nil => exact String.empty_append.symm
  | cons row rows ih =>
    rw [List.cons_append, unlines_cons, unlines_cons, ih]
    exact String.append_assoc.symm

/-- A text that is read back as one line when it is written with a newline. -/
def OneLine (row : String) : Prop := '\n' ∉ row.toList ∧ row.toList.getLast? ≠ some '\r'

theorem lines_of_oneLine {row : String} (one : OneLine row) : lines (row ++ "\n") = [row] := by
  have last : lineOf row.toList.reverse = row := by
    unfold lineOf
    split
    · next rest reversed =>
      refine absurd ?_ one.2
      rw [← List.head?_reverse, reversed, List.head?_cons]
    · rw [List.reverse_reverse, String.ofList_toList]
  rw [lines, String.toList_append, linesOnto_of_not_mem one.1, List.append_nil]
  show linesOnto [] row.toList.reverse ['\n'] = [row]
  rw [linesOnto, if_pos rfl, last]
  rfl

/-- Lines that are written one by one are read back. -/
theorem lines_unlines {rows : List String} (all : ∀ row ∈ rows, OneLine row) :
    lines (unlines rows) = rows := by
  induction rows with
  | nil => rfl
  | cons row rows ih =>
    obtain ⟨one, rest⟩ := List.forall_mem_cons.1 all
    rw [unlines_cons, lines_append, lines_of_oneLine one, ih rest, List.singleton_append]

end Text

end Clarify
