import Clarify.Proofs.ClassFile.Patch

/-!
# Code with instructions taken out

Where bytes that are instructions of their own, without operands, take the place of one instruction,
all others are still there: the code has the same starts of instructions, and some more.

Results:
* `Tiles.exists_start`: instructions still start where they did.
* `Bared.exists_decode`: such code can be decoded, and has all the other instructions.
-/

namespace Clarify.Code

variable {a b : Array UInt8} {pc n : Nat} {i : Instruction}

/-- The bytes from `pc` on, before `stop`, are instructions without operands. -/
def Bare (code : Array UInt8) (pc stop : Nat) : Prop :=
  ∀ k, pc ≤ k → k < stop → Opcode.shape? (byteAt code k) = some .bare

theorem exists_tiles_of_bare {rest : List Instruction} (room : pc + n ≤ b.size)
    (bare : Bare b pc (pc + n)) (tiles : Tiles b (pc + n) rest) :
    ∃ front, Tiles b pc (front ++ rest) ∧ (∀ j ∈ front, j.targets = []) ∧
      (0 < n → ∃ j ∈ front, j.offset = pc) := by
  induction n generalizing pc with
  | zero => exact ⟨[], tiles, nofun, nofun⟩
  | succ n ih =>
    rw [← Nat.add_assoc, Nat.add_right_comm] at room bare tiles
    obtain ⟨front, tiles', flat, -⟩ := ih room (fun k lo hi => bare k (by omega) hi) tiles
    let first : Instruction := ⟨pc, byteAt b pc, 0, .bare⟩
    refine ⟨first :: front, .cons (by omega) ?_ tiles', ?_, fun _ => ⟨first, by simp, rfl⟩⟩
    · exact instructionAt_of_bare (bare pc (by omega) (by omega))
    · exact List.forall_mem_cons.2 ⟨rfl, flat⟩

/-- The row of instructions with one of them taken out. -/
theorem Tiles.exists_of_bare {row : List Instruction} (tiles : Tiles a pc row)
    (size : b.size = a.size) (others : ∀ j ∈ row, j ≠ i → instructionAt b j.offset = .ok j)
    (bare : Bare b i.offset i.next) (room : i.next ≤ b.size) :
    ∃ row', Tiles b pc row' ∧ (∀ j ∈ row, j ≠ i → j ∈ row') ∧
      (∀ j ∈ row', j ∈ row ∨ j.targets = []) ∧ ∀ j ∈ row, ∃ k ∈ row', k.offset = j.offset := by
  induction tiles with
  | nil => exact ⟨[], size ▸ .nil, nofun, nofun, nofun⟩
  | @cons pc j rest inside read _ ih =>
    obtain ⟨rest', tiles', kept, old, starts⟩ := ih fun k mem => others k (by simp [mem])
    have place := offset_of_instructionAt read
    by_cases same : j = i
    · subst same
      rw [Instruction.next, place] at bare room tiles'
      obtain ⟨front, tiles'', flat, first⟩ := exists_tiles_of_bare room bare tiles'
      refine ⟨front ++ rest', tiles'', ?_, ?_, ?_⟩
      · intro k mem ne
        exact List.mem_append_right _ (kept k ((List.mem_cons.1 mem).resolve_left ne) ne)
      · intro k mem
        obtain mem | mem := List.mem_append.1 mem
        · exact .inr (flat k mem)
        · exact (old k mem).imp_left fun mem => by simp [mem]
      · intro k mem
        obtain rfl | mem := List.mem_cons.1 mem
        · obtain ⟨l, there, eq⟩ := first k.length_pos
          exact ⟨l, List.mem_append_left _ there, eq.trans place.symm⟩
        · obtain ⟨l, there, eq⟩ := starts k mem
          exact ⟨l, List.mem_append_right _ there, eq⟩
    · have read' := others j (by simp) same
      rw [place] at read'
      refine ⟨j :: rest', .cons (size ▸ inside) read' tiles', ?_, ?_, ?_⟩
      · intro k mem ne
        obtain rfl | mem := List.mem_cons.1 mem
        · simp
        · simp [kept k mem ne]
      · intro k mem
        obtain rfl | mem := List.mem_cons.1 mem
        · simp
        · exact (old k mem).imp_left fun mem => by simp [mem]
      · intro k mem
        obtain rfl | mem := List.mem_cons.1 mem
        · exact ⟨k, by simp, rfl⟩
        · obtain ⟨l, there, eq⟩ := starts k mem
          exact ⟨l, by simp [there], eq⟩

/-! ## Starts that stay -/

/-- Instructions without operands end where each of their bytes does. -/
theorem Tiles.exists_suffix {row : List Instruction} (tiles : Tiles b pc row) {stop : Nat}
    (lo : pc ≤ stop) (hi : stop ≤ b.size) (bare : Bare b pc stop) :
    ∃ rest, Tiles b stop rest ∧ ∀ j ∈ rest, j ∈ row := by
  induction tiles with
  | nil =>
    obtain rfl : stop = b.size := by omega
    exact ⟨[], .nil, fun j hj => hj⟩
  | @cons pc j rest inside read tiles ih =>
    rcases Nat.eq_or_lt_of_le lo with rfl | lt
    · exact ⟨j :: rest, .cons inside read tiles, fun k hk => hk⟩
    · have first := instructionAt_of_bare (bare pc (Nat.le_refl pc) lt)
      rw [read] at first
      cases first
      have next : pc + 1 ≤ stop := lt
      obtain ⟨rest', tiles', sub⟩ := ih next fun k lo hi =>
        bare k (Nat.le_of_succ_le (show pc + 1 ≤ k from lo)) hi
      exact ⟨rest', tiles', fun k hk => List.mem_cons_of_mem _ (sub k hk)⟩

/-- Where each instruction has either one that ends where it does or instructions without operands
in its place, instructions still start where they did. -/
theorem Tiles.exists_start {row row' : List Instruction} (tiles : Tiles a pc row)
    (tiles' : Tiles b pc row') (size : b.size = a.size)
    (room : ∀ j ∈ row, j.next ≤ a.size)
    (each : ∀ j ∈ row, (∃ j', instructionAt b j.offset = .ok j' ∧ j'.next = j.next) ∨
      Bare b j.offset j.next) : ∀ j ∈ row, ∃ j' ∈ row', j'.offset = j.offset := by
  induction tiles generalizing row' with
  | nil => intro j hj; cases hj
  | @cons pc j rest inside read _ ih =>
    obtain ⟨here, each⟩ := List.forall_mem_cons.1 each
    obtain ⟨fits, room⟩ := List.forall_mem_cons.1 room
    have place := offset_of_instructionAt read
    -- Both rows go on behind the instruction, and the second one starts where it does.
    have behind : ∃ rest', Tiles b j.next rest' ∧ (∀ k ∈ rest', k ∈ row') ∧
        ∃ k ∈ row', k.offset = j.offset := by
      cases tiles' with
      | nil => omega
      | @cons _ k rest' inside' read' tiles' =>
        have start : ∃ l ∈ k :: rest', l.offset = j.offset :=
          ⟨k, List.mem_cons_self, (offset_of_instructionAt read').trans place.symm⟩
        obtain ⟨k', read'', next⟩ | bare := here
        · rw [place, read'] at read''
          cases read''
          exact ⟨rest', next ▸ tiles', fun l hl => List.mem_cons_of_mem k hl, start⟩
        · have lo : pc ≤ j.next := by rw [Instruction.next, place]; omega
          rw [place] at bare
          obtain ⟨rest'', tiles'', sub⟩ :=
            (Tiles.cons inside' read' tiles').exists_suffix lo (size ▸ fits) bare
          exact ⟨rest'', tiles'', sub, start⟩
    obtain ⟨rest', tiles'', sub, start⟩ := behind
    intro k hk
    obtain rfl | hk := List.mem_cons.1 hk
    · exact start
    · obtain ⟨k', hk', same⟩ := ih tiles'' room each k hk
      exact ⟨k', sub k' hk', same⟩

/-! ## One instruction taken out -/

/-- The code has instructions without operands in the place of one instruction, and is the same
everywhere else. -/
structure Bared (a b : Array UInt8) (i : Instruction) : Prop where
  size : b.size = a.size
  outside : ∀ k, k < i.offset ∨ i.next ≤ k → byteAt b k = byteAt a k
  bare : Bare b i.offset i.next

/-- Code with an instruction taken out can be decoded, and has all the other instructions. -/
theorem Bared.exists_decode {instructions : Array Instruction} (h : Bared a b i)
    (decoded : decode a = .ok instructions) (hi : i ∈ instructions) :
    ∃ instructions', decode b = .ok instructions' ∧
      ∀ j ∈ instructions, j ≠ i → j ∈ instructions' := by
  have others (j : Instruction) (hj : j ∈ instructions.toList) (ne : j ≠ i) :
      instructionAt b j.offset = .ok j := by
    have mem := Array.mem_toList_iff.1 hj
    refine instructionAt_congr (instructionAt_of_mem decoded mem) (offset_lt_of_mem decoded mem)
      h.size fun k inside => h.outside _ ?_
    have apart := next_le_or_next_le decoded mem hi ne
    rw [Instruction.next] at apart
    omega
  obtain ⟨row, tiles, kept, old, starts⟩ := (tiles_of_decode decoded).exists_of_bare h.size others
    h.bare (h.size ▸ next_le_of_mem decoded hi)
  refine ⟨row.toArray, decode_eq_ok_iff.2 ⟨tiles, fun j hj t ht => ?_⟩, fun j hj ne => ?_⟩
  · obtain mem | flat := old j (List.mem_toArray.1 hj)
    · obtain ⟨k, hk, rfl⟩ := isStart_of_mem_targets decoded (Array.mem_toList_iff.1 mem) ht
      obtain ⟨l, hl, eq⟩ := starts k (Array.mem_toList_iff.2 hk)
      exact ⟨l, List.mem_toArray.2 hl, eq⟩
    · rw [flat] at ht
      cases ht
  · exact List.mem_toArray.2 (kept j (Array.mem_toList_iff.2 hj) ne)

theorem bared_nopOut {code : Array UInt8} (room : i.next ≤ code.size) :
    Bared code (nopOut code i) i where
  size := size_nopOut ..
  outside k out := by
    refine byteAt_overwrite_of_outside ?_
    rw [List.length_replicate]
    exact out
  bare k lo hi := by
    rw [byteAt_nopOut lo hi room]
    decide

end Clarify.Code
