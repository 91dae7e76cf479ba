import Clarify.Run.Schedule

/-!
# Courses of a schedule

At any time each job waits, runs, has replied, is settled by its reply, or was dropped by a
coordinator that has given up. An event moves at most one job from one of these parts to another,
so in every course, whatever the order of its events, no job is lost and none is counted twice.

Results:
* `moves_of_step?`: all that an event can do.
* `Balanced.of_moves`: no event loses a job or counts one twice.
* `Balanced.of_run?`: in every state of a course the parts are the jobs.
* `exists_isOver`: every course can be carried to its end.
* `batch_of_course`: what is known in the end.
-/

namespace Clarify

/-- What a job that has ended sends: its name and what is reported for it. -/
def Job.reply {α : Type} (job : Job α) : String × Except UnitError α :=
  (job.name, job.ending.outcome)

namespace Schedule

variable {α : Type} {s s' : Schedule α} {jobs : List (Job α)} {limit : Nat}

/-! ## What an event does -/

/-- All that can happen in a state. -/
inductive Moves (s : Schedule α) : Schedule α → Prop
  /-- A running job replies. -/
  | reply {before behind : List (Job α)} {job : Job α}
      (running : s.running = before ++ job :: behind) :
      Moves s { s with running := before ++ behind, replies := s.replies ++ [job.reply] }
  /-- The deadline passes. -/
  | expire : Moves s { s with isLate := true }
  /-- A job is submitted because there is room for it. -/
  | submit {job : Job α} {waiting : List (Job α)} (next : s.waiting = job :: waiting)
      (going : s.timedOut = false) (room : s.inFlight.length < s.limit) :
      Moves s { s with
        waiting, running := s.running ++ [job], inFlight := job.name :: s.inFlight }
  /-- The earliest reply is received. -/
  | receive {name : String} {outcome : Except UnitError α}
      {replies : List (String × Except UnitError α)}
      (first : s.replies = (name, outcome) :: replies) (going : s.timedOut = false) :
      Moves s { s with
        replies, inFlight := s.inFlight.erase name, results := s.results.insert name outcome }
  /-- The coordinator gives up: there is no reply, and it is late. -/
  | giveUp (none : s.replies = []) (late : s.isLate = true) (going : s.timedOut = false) :
      Moves s { s with timedOut := true }
  /-- A job that was never submitted is dropped. -/
  | drop {job : Job α} {waiting : List (Job α)} (next : s.waiting = job :: waiting)
      (ended : s.timedOut = true) :
      Moves s { s with waiting, results := s.results.insert job.name (.error .timeout) }

theorem moves_of_receive? (h : s.receive? = some s') (going : s.timedOut = false) :
    Moves s s' := by
  unfold receive? at h
  split at h
  · next name outcome replies first =>
    cases h
    exact .receive first going
  · next none =>
    split at h
    · next late =>
      cases h
      exact .giveUp none late going
    · cases h

theorem moves_of_coordinate? (h : s.coordinate? = some s') : Moves s s' := by
  unfold coordinate? at h
  split at h
  · next job waiting next =>
    split at h
    · next ended =>
      cases h
      exact .drop next ended
    · next going =>
      have going : s.timedOut = false := by simpa using going
      split at h
      · next room =>
        cases h
        exact .submit next going room
      · exact moves_of_receive? h going
  · split at h
    · cases h
    · next going =>
      have going : s.timedOut = false := by
        rw [Bool.or_eq_true, not_or] at going
        simpa using going.1
      exact moves_of_receive? h going

theorem moves_of_step? {e : Event} (h : s.step? e = some s') : Moves s s' := by
  cases e with
  | reply index =>
    simp only [step?, Option.map_eq_some_iff] at h
    obtain ⟨job, here, rfl⟩ := h
    obtain ⟨inside, here⟩ := List.getElem?_eq_some_iff.1 here
    have split : s.running = s.running.take index ++ job :: s.running.drop (index + 1) := by
      rw [← here, List.getElem_cons_drop, List.take_append_drop]
    rw [List.eraseIdx_eq_take_drop_succ]
    exact .reply split
  | expire =>
    simp only [step?] at h
    split at h
    · cases h
    · cases h
      exact .expire
  | coordinate => exact moves_of_coordinate? h

theorem run?_cons_eq_some_iff {e : Event} {events : List Event} :
    s.run? (e :: events) = some s' ↔
      ∃ next, s.step? e = some next ∧ next.run? events = some s' := by
  rw [run?, List.foldlM_cons]
  exact Option.bind_eq_some_iff

/-! ## Where the jobs are -/

/-- The jobs that neither wait nor run. -/
structure Tally (α : Type) where
  /-- Those whose replies were not received yet. -/
  replied : List (Job α)
  /-- Those whose replies were received. -/
  settled : List (Job α)
  /-- Those that were never submitted. -/
  dropped : List (Job α)

/-- The jobs are all that waits, runs, or is in the tally, and the state tells so. -/
structure Balanced (limit : Nat) (jobs : List (Job α)) (t : Tally α) (s : Schedule α) :
    Prop where
  parts : (s.waiting ++ s.running ++ t.replied ++ (t.settled ++ t.dropped)).Perm jobs
  replies : s.replies = t.replied.map Job.reply
  inFlight : s.inFlight.Perm ((s.running ++ t.replied).map Job.name)
  settled : ∀ job ∈ t.settled, s.results[job.name]? = some job.ending.outcome
  dropped : ∀ job ∈ t.dropped, s.results[job.name]? = some (.error .timeout)
  known : ∀ name ∈ s.results, ∃ job ∈ t.settled ++ t.dropped, job.name = name
  going : s.timedOut = false → t.dropped = []
  bound : s.limit = limit
  room : s.inFlight.length ≤ limit

theorem balanced_start (workerCount queueCapacity : Nat) (jobs : List (Job α)) :
    Balanced (workers workerCount + queueCapacity) jobs ⟨[], [], []⟩
      (start workerCount queueCapacity jobs) where
  parts := by simp [start]
  replies := rfl
  inFlight := by simp [start]
  settled := nofun
  dropped := nofun
  known := by simp [start]
  going _ := rfl
  bound := rfl
  room := by simp [start]

theorem known_insert {job : Job α} {outcome : Except UnitError α} {done done' : List (Job α)}
    (known : ∀ name ∈ s.results, ∃ job ∈ done, job.name = name)
    (more : ∀ other, other ∈ done' ↔ other = job ∨ other ∈ done) :
    ∀ name ∈ s.results.insert job.name outcome, ∃ job ∈ done', job.name = name := by
  intro name mem
  rcases Std.TreeMap.mem_insert.1 mem with eq | mem
  · exact ⟨job, (more job).2 (.inl rfl), Std.compare_eq_iff_eq.1 eq⟩
  · obtain ⟨other, mem, eq⟩ := known name mem
    exact ⟨other, (more other).2 (.inr mem), eq⟩

theorem perm_later {β : Type} (xs ys zs : List β) (b : β) :
    (xs ++ (ys ++ b :: zs)).Perm (b :: (xs ++ (ys ++ zs))) := by
  rw [← List.append_assoc, ← List.append_assoc]
  exact List.perm_middle

namespace Balanced

variable {t : Tally α}

section Parts

variable (h : Balanced limit jobs t s) (unique : (jobs.map Job.name).Nodup)

include h unique

/-- A job about which nothing is known has another name than one about which something is. -/
theorem name_ne {job other : Job α} (done : job ∈ t.settled ++ t.dropped)
    (mem : other ∈ s.waiting ++ s.running ++ t.replied) : other.name ≠ job.name := by
  have names : ((s.waiting ++ s.running ++ t.replied ++ (t.settled ++ t.dropped)).map
      Job.name).Nodup := (h.parts.map Job.name).nodup_iff.2 unique
  rw [List.map_append, List.nodup_append] at names
  exact names.2.2 _ (List.mem_map_of_mem mem) _ (List.mem_map_of_mem done)

theorem getElem?_insert {job other : Job α} {outcome : Except UnitError α}
    (done : job ∈ t.settled ++ t.dropped) (mem : other ∈ s.waiting ++ s.running ++ t.replied) :
    (s.results.insert other.name outcome)[job.name]? = s.results[job.name]? := by
  have ne := h.name_ne unique done mem
  rw [Std.TreeMap.getElem?_insert, if_neg (by simpa using ne)]

theorem not_mem_inFlight {job : Job α} (done : job ∈ t.settled ++ t.dropped) :
    job.name ∉ s.inFlight := by
  intro mem
  obtain ⟨other, mem, eq⟩ := List.mem_map.1 (h.inFlight.mem_iff.1 mem)
  refine h.name_ne unique done ?_ eq
  rw [List.append_assoc]
  exact List.mem_append_right _ mem

/-- What is known about a settled job stays when another one gets known. -/
theorem settled_insert {other : Job α} {outcome : Except UnitError α}
    (mem : other ∈ s.waiting ++ s.running ++ t.replied) :
    ∀ job ∈ t.settled,
      (s.results.insert other.name outcome)[job.name]? = some job.ending.outcome := by
  intro job settled
  rw [h.getElem?_insert unique (List.mem_append_left _ settled) mem, h.settled job settled]

/-- The earliest reply is received: its job is settled. As long as replies are received, no job was
dropped. -/
theorem of_receive {job : Job α} {replied : List (Job α)} (cut : t.replied = job :: replied)
    (going : s.timedOut = false) :
    Balanced limit jobs ⟨replied, job :: t.settled, []⟩
      { s with
        replies := replied.map Job.reply
        inFlight := s.inFlight.erase job.name
        results := s.results.insert job.name job.ending.outcome } := by
  have parts := h.parts
  have inFlight := h.inFlight
  have nothing := h.going going
  have here : job ∈ s.waiting ++ s.running ++ t.replied := by simp [cut]
  rw [cut, nothing] at parts
  rw [cut] at inFlight
  refine { h with
    parts := .trans ?_ parts, replies := rfl, inFlight := (inFlight.erase _).trans ?_,
    settled := ?_, dropped := by simp, known := ?_, going := fun _ => rfl, room := ?_ }
  · simp only [List.append_assoc, List.cons_append]
    exact .append_left _ (.append_left _ List.perm_middle)
  · rw [List.map_append, List.map_cons, List.map_append]
    refine (List.perm_middle.erase _).trans ?_
    rw [List.erase_cons_head]
  · intro other mem
    rcases List.mem_cons.1 mem with rfl | mem
    · exact Std.TreeMap.getElem?_insert_self
    · exact h.settled_insert unique here other mem
  · exact known_insert h.known (by simp [nothing])
  · exact Nat.le_trans List.length_erase_le h.room

/-- A job that waits is dropped once the coordinator has given up. -/
theorem of_drop {job : Job α} {waiting : List (Job α)} (next : s.waiting = job :: waiting)
    (ended : s.timedOut = true) :
    Balanced limit jobs { t with dropped := job :: t.dropped }
      { s with waiting, results := s.results.insert job.name (.error .timeout) } := by
  have parts := h.parts
  have here : job ∈ s.waiting ++ s.running ++ t.replied := by simp [next]
  rw [next] at parts
  refine { h with
    parts := .trans ?_ parts, settled := h.settled_insert unique here, dropped := ?_, known := ?_,
    going := ?_ }
  · rw [← List.append_assoc, ← List.append_assoc]
    exact List.perm_middle
  · intro other mem
    rcases List.mem_cons.1 mem with rfl | mem
    · exact Std.TreeMap.getElem?_insert_self
    · rw [h.getElem?_insert unique (List.mem_append_right _ mem) here, h.dropped other mem]
  · refine known_insert h.known ?_
    intro other
    simp only [List.mem_append, List.mem_cons]
    exact or_left_comm
  · intro going
    exact absurd (going.symm.trans ended) (by simp)

end Parts

/-- A running job replies. -/
theorem of_reply (h : Balanced limit jobs t s) {before behind : List (Job α)} {job : Job α}
    (running : s.running = before ++ job :: behind) :
    Balanced limit jobs { t with replied := t.replied ++ [job] }
      { s with running := before ++ behind, replies := s.replies ++ [job.reply] } := by
  have parts := h.parts
  have inFlight := h.inFlight
  rw [running] at parts inFlight
  refine { h with parts := .trans ?_ parts, replies := ?_, inFlight := inFlight.trans (.map _ ?_) }
  · simp only [List.append_assoc, List.cons_append, List.nil_append]
    exact .append_left _ (.append_left _ (perm_later ..))
  · rw [List.map_append, h.replies]
    rfl
  · simp only [List.append_assoc, List.cons_append]
    have last := (perm_later behind t.replied [] job).symm
    rw [List.append_nil] at last
    exact .append_left _ last

/-- A job that waits is submitted, and then one more is in flight. -/
theorem of_submit (h : Balanced limit jobs t s) {job : Job α} {waiting : List (Job α)}
    (next : s.waiting = job :: waiting) (free : s.inFlight.length < s.limit) :
    Balanced limit jobs t
      { s with waiting, running := s.running ++ [job], inFlight := job.name :: s.inFlight } := by
  have parts := h.parts
  have bound := h.bound
  rw [next] at parts
  refine { h with
    parts := .trans ?_ parts, inFlight := (h.inFlight.cons _).trans ?_, room := ?_ }
  · simp only [List.append_assoc, List.cons_append, List.nil_append]
    exact perm_later ..
  · simp only [List.append_assoc, List.map_append, List.map_cons, List.cons_append,
      List.nil_append]
    exact List.perm_middle.symm
  · show s.inFlight.length + 1 ≤ limit
    omega

/-- An event moves at most one job, and the state still tells where all of them are. -/
theorem of_moves (h : Balanced limit jobs t s) (unique : (jobs.map Job.name).Nodup)
    (moves : Moves s s') : ∃ t', Balanced limit jobs t' s' := by
  cases moves with
  | reply running => exact ⟨_, h.of_reply running⟩
  | expire => exact ⟨t, { h with }⟩
  | submit next going free => exact ⟨t, h.of_submit next free⟩
  | receive first going =>
    rw [h.replies] at first
    obtain ⟨job, replied, cut, sent, rfl⟩ := List.map_eq_cons_iff.1 first
    obtain ⟨rfl, rfl⟩ := Prod.mk.inj sent
    exact ⟨_, h.of_receive unique cut going⟩
  | giveUp none late going => exact ⟨t, { h with going := by simp }⟩
  | drop next ended => exact ⟨_, h.of_drop unique next ended⟩

theorem of_run? (h : Balanced limit jobs t s) (unique : (jobs.map Job.name).Nodup)
    {events : List Event} (course : s.run? events = some s') :
    ∃ t', Balanced limit jobs t' s' := by
  induction events generalizing s t with
  | nil =>
    cases course
    exact ⟨t, h⟩
  | cons e events ih =>
    obtain ⟨next, step, course⟩ := run?_cons_eq_some_iff.1 course
    obtain ⟨t', h'⟩ := h.of_moves unique (moves_of_step? step)
    exact ih h' course

/-! ## What is known -/

/-- What is known about a name stays. -/
theorem getElem?_results_of_moves (h : Balanced limit jobs t s)
    (unique : (jobs.map Job.name).Nodup) (moves : Moves s s') {name : String}
    (known : name ∈ s.results) : s'.results[name]? = s.results[name]? := by
  obtain ⟨job, done, rfl⟩ := h.known name known
  cases moves with
  | @receive name outcome replies first going =>
    have first := h.replies.symm.trans first
    obtain ⟨other, replied, cut, sent, -⟩ := List.map_eq_cons_iff.1 first
    obtain ⟨rfl, rfl⟩ := Prod.mk.inj sent
    exact h.getElem?_insert unique done (by simp [cut])
  | drop next ended => exact h.getElem?_insert unique done (by simp [next])
  | reply running => rfl
  | expire => rfl
  | submit next going room => rfl
  | giveUp none late going => rfl

end Balanced

/-- The reply of a job was sent while the coordinator still listens, or it was received. -/
def Answered (job : Job α) (s : Schedule α) : Prop :=
  s.timedOut = false ∧ job.reply ∈ s.replies ∨ s.results[job.name]? = some job.ending.outcome

namespace Answered

variable {job : Job α} {t : Tally α}

/-- A coordinator gives up only when there is no reply. -/
theorem of_moves (answered : Answered job s) (h : Balanced limit jobs t s)
    (unique : (jobs.map Job.name).Nodup) (moves : Moves s s') : Answered job s' := by
  rcases answered with ⟨going, sent⟩ | known
  · cases moves with
    | reply running => exact .inl ⟨going, List.mem_append_left _ sent⟩
    | expire => exact .inl ⟨going, sent⟩
    | submit next going room => exact .inl ⟨going, sent⟩
    | receive first going =>
      rw [first] at sent
      rcases List.mem_cons.1 sent with eq | sent
      · obtain ⟨rfl, rfl⟩ := Prod.mk.inj eq
        exact .inr Std.TreeMap.getElem?_insert_self
      · exact .inl ⟨going, sent⟩
    | giveUp none late going => simp [none] at sent
    | drop next ended => simp [going] at ended
  · refine .inr ((h.getElem?_results_of_moves unique moves ?_).trans known)
    rw [Std.TreeMap.mem_iff_isSome_getElem?, known]
    rfl

theorem of_run? (answered : Answered job s) (h : Balanced limit jobs t s)
    (unique : (jobs.map Job.name).Nodup) {events : List Event}
    (course : s.run? events = some s') : Answered job s' := by
  induction events generalizing s t with
  | nil =>
    cases course
    exact answered
  | cons e events ih =>
    obtain ⟨next, step, course⟩ := run?_cons_eq_some_iff.1 course
    have moves := moves_of_step? step
    obtain ⟨t', h'⟩ := h.of_moves unique moves
    exact ih (answered.of_moves h unique moves) h' course

end Answered

/-! ## The end -/

/-- The jobs that were submitted, and about which nothing is known. -/
def unsettled (jobs : List (Job α)) (s : Schedule α) : List (Job α) :=
  jobs.filter fun job =>
    !s.waiting.any (fun other => other.name == job.name) && !s.results.contains job.name

theorem Balanced.known_of_mem {t : Tally α} (h : Balanced limit jobs t s) {job : Job α}
    (done : job ∈ t.settled ++ t.dropped) : job.name ∈ s.results := by
  rw [Std.TreeMap.mem_iff_isSome_getElem?]
  rcases List.mem_append.1 done with settled | dropped
  · rw [h.settled job settled]
    rfl
  · rw [h.dropped job dropped]
    rfl

theorem Balanced.length_unsettled_le {t : Tally α} (h : Balanced limit jobs t s) :
    (unsettled jobs s).length ≤ limit := by
  let isOpen := fun job : Job α =>
    !s.waiting.any (fun other => other.name == job.name) && !s.results.contains job.name
  have waiting : s.waiting.filter isOpen = [] := by
    simp only [isOpen, List.filter_eq_nil_iff]
    intro job mem
    have : s.waiting.any (fun other => other.name == job.name) = true :=
      List.any_eq_true.2 ⟨job, mem, by simp⟩
    simp [this]
  have done : (t.settled ++ t.dropped).filter isOpen = [] := by
    simp only [isOpen, List.filter_eq_nil_iff]
    intro job mem
    have := Std.TreeMap.contains_iff_mem.2 (h.known_of_mem mem)
    simp [this]
  calc (unsettled jobs s).length
      = ((s.waiting ++ s.running ++ t.replied ++ (t.settled ++ t.dropped)).filter isOpen).length :=
        (h.parts.filter isOpen).length_eq.symm
    _ = ((s.running ++ t.replied).filter isOpen).length := by
        simp only [List.filter_append, waiting, List.nil_append] at done ⊢
        rw [done, List.append_nil]
    _ ≤ ((s.running ++ t.replied).map Job.name).length := by
        rw [List.length_map]
        exact List.length_filter_le ..
    _ = s.inFlight.length := h.inFlight.length_eq.symm
    _ ≤ limit := h.room

theorem getElem?_foldl_insert (names : List String) (value : Except UnitError α)
    (results : Std.TreeMap String (Except UnitError α)) (name : String) :
    (names.foldl (fun results name => results.insert name value) results)[name]? =
      if name ∈ names then some value else results[name]? := by
  induction names generalizing results with
  | nil => rfl
  | cons first names ih =>
    rw [List.foldl_cons, ih, Std.TreeMap.getElem?_insert]
    by_cases later : name ∈ names
    · simp [later]
    · by_cases eq : first = name <;> simp [later, eq, Ne.symm]

theorem getElem?_batch (s : Schedule α) (name : String) :
    s.batch.results[name]? =
      if s.timedOut = true ∧ name ∈ s.inFlight then some (.error .timeout)
      else s.results[name]? := by
  unfold batch
  by_cases ended : s.timedOut = true
  · simp only [ended, if_true, true_and]
    exact getElem?_foldl_insert ..
  · simp [ended]

namespace Balanced

variable {t : Tally α}

section Over

variable (h : Balanced limit jobs t s) (unique : (jobs.map Job.name).Nodup)
  (ended : s.isOver = true)

include h ended

/-- When all is over, every job is in flight or in the tally. -/
theorem mem_of_isOver {job : Job α} : job ∈ jobs ↔
    (s.timedOut = true ∧ job ∈ s.running ++ t.replied) ∨ job ∈ t.settled ++ t.dropped := by
  rw [isOver, Bool.and_eq_true, List.isEmpty_iff, Bool.or_eq_true, List.isEmpty_iff] at ended
  obtain ⟨waiting, ended⟩ := ended
  rw [← h.parts.mem_iff, waiting, List.nil_append, List.mem_append]
  refine or_congr_left ⟨fun mem => ⟨ended.resolve_right ?_, mem⟩, And.right⟩
  intro empty
  have nothing := h.inFlight
  rw [empty, List.nil_perm, List.map_eq_nil_iff] at nothing
  rw [nothing] at mem
  simp at mem

include unique

theorem getElem?_batch_of_isOver {job : Job α} (mem : job ∈ jobs) :
    s.batch.results[job.name]? = some job.ending.outcome ∨
      s.timedOut = true ∧ s.batch.results[job.name]? = some (.error .timeout) := by
  rw [getElem?_batch]
  rcases (h.mem_of_isOver ended).1 mem with ⟨late, going⟩ | done
  · have : job.name ∈ s.inFlight := h.inFlight.mem_iff.2 (List.mem_map_of_mem going)
    exact .inr ⟨late, by rw [if_pos ⟨late, this⟩]⟩
  · rw [if_neg (fun both => h.not_mem_inFlight unique done both.2)]
    rcases List.mem_append.1 done with settled | dropped
    · exact .inl (h.settled job settled)
    · refine .inr ⟨?_, h.dropped job dropped⟩
      by_cases late : s.timedOut = true
      · exact late
      · rw [h.going (by simpa using late)] at dropped
        simp at dropped

theorem mem_batch_iff {name : String} :
    name ∈ s.batch.results ↔ ∃ job ∈ jobs, job.name = name := by
  constructor
  · intro mem
    rw [Std.TreeMap.mem_iff_isSome_getElem?, getElem?_batch] at mem
    split at mem
    · next both =>
      obtain ⟨job, going, eq⟩ := List.mem_map.1 (h.inFlight.mem_iff.1 both.2)
      exact ⟨job, (h.mem_of_isOver ended).2 (.inl ⟨both.1, going⟩), eq⟩
    · rw [← Std.TreeMap.mem_iff_isSome_getElem?] at mem
      obtain ⟨job, done, eq⟩ := h.known name mem
      exact ⟨job, (h.mem_of_isOver ended).2 (.inr done), eq⟩
  · rintro ⟨job, mem, rfl⟩
    rw [Std.TreeMap.mem_iff_isSome_getElem?]
    rcases h.getElem?_batch_of_isOver unique ended mem with own | ⟨-, timeout⟩
    · rw [own]
      rfl
    · rw [timeout]
      rfl

/-- A coordinator that has not given up knows all outcomes, in whatever order they came. -/
theorem toList_batch (going : s.timedOut = false) :
    s.batch.results.toList = (Std.TreeMap.ofList (jobs.map Job.reply)).toList := by
  refine Std.TreeMap.Equiv.toList_eq (Std.TreeMap.Equiv.of_forall_constGet?_eq fun name => ?_)
  by_cases known : ∃ job ∈ jobs, job.name = name
  · obtain ⟨job, mem, rfl⟩ := known
    have distinct : (jobs.map Job.reply).Pairwise fun a b => ¬ compare a.1 b.1 = .eq := by
      rw [List.pairwise_map]
      rw [List.nodup_iff_pairwise_ne, List.pairwise_map] at unique
      exact unique.imp fun ne eq => ne (Std.compare_eq_iff_eq.1 eq)
    rcases h.getElem?_batch_of_isOver unique ended mem with own | ⟨late, -⟩
    · rw [own, Std.TreeMap.getElem?_ofList_of_mem (Std.compare_self) distinct
        (List.mem_map_of_mem mem)]
    · simp [going] at late
  · have absent : name ∉ s.batch.results := mt (h.mem_batch_iff unique ended).1 known
    have other : name ∉ Std.TreeMap.ofList (jobs.map Job.reply) := by
      rw [Std.TreeMap.mem_ofList, List.contains_iff_mem, List.map_map]
      exact mt List.mem_map.1 known
    rw [Std.TreeMap.getElem?_eq_none absent, Std.TreeMap.getElem?_eq_none other]

/-- A job that was answered has its own outcome in the end. -/
theorem getElem?_batch_of_answered {job : Job α} (answered : Answered job s) :
    s.batch.results[job.name]? = some job.ending.outcome := by
  have known : s.results[job.name]? = some job.ending.outcome := by
    refine answered.resolve_left ?_
    rintro ⟨going, sent⟩
    rw [isOver, Bool.and_eq_true, Bool.or_eq_true, going] at ended
    have empty := h.inFlight
    rw [List.isEmpty_iff.1 (ended.2.resolve_left Bool.false_ne_true), List.nil_perm,
      List.map_eq_nil_iff, List.append_eq_nil_iff] at empty
    simp [h.replies, empty.2] at sent
  have mem : job.name ∈ s.results := by
    rw [Std.TreeMap.mem_iff_isSome_getElem?, known]
    rfl
  obtain ⟨other, done, eq⟩ := h.known _ mem
  have settled : job.name ∉ s.inFlight := eq ▸ h.not_mem_inFlight unique done
  rw [getElem?_batch, if_neg (fun both => settled both.2), known]

end Over

end Balanced

theorem exists_run?_of_append {before after : List Event}
    (course : s.run? (before ++ after) = some s') :
    ∃ mid, s.run? before = some mid ∧ mid.run? after = some s' := by
  rw [run?, List.foldlM_append] at course
  exact Option.bind_eq_some_iff.1 course

/-- As long as not all is over, the coordinator can go on, or it only waits for the deadline. -/
theorem exists_step?_of_not_isOver (h : s.isOver = false) : ∃ e s', s.step? e = some s' := by
  have receives : ∀ s : Schedule α, (∃ s', s.receive? = some s') ∨ s.isLate = false := by
    intro s
    unfold receive?
    split
    · exact .inl ⟨_, rfl⟩
    · cases s.isLate
      · exact .inr rfl
      · exact .inl ⟨_, rfl⟩
  have coordinates : (∃ s', s.coordinate? = some s') ∨ s.isLate = false := by
    unfold coordinate?
    split
    · split
      · exact .inl ⟨_, rfl⟩
      · split
        · exact .inl ⟨_, rfl⟩
        · exact receives s
    · next none =>
      have going : (s.timedOut || s.inFlight.isEmpty) = false := by
        simpa [isOver, none] using h
      rw [going, if_neg Bool.false_ne_true]
      exact receives s
  rcases coordinates with ⟨s', step⟩ | early
  · exact ⟨.coordinate, s', step⟩
  · exact ⟨.expire, _, by rw [step?, early, if_neg Bool.false_ne_true]⟩

/-- Every course can be carried to its end. -/
theorem exists_isOver (s : Schedule α) :
    ∃ events s', s.run? events = some s' ∧ s'.isOver = true := by
  by_cases ended : s.isOver = true
  · exact ⟨[], s, rfl, ended⟩
  · obtain ⟨e, next, step⟩ := exists_step?_of_not_isOver (by simpa using ended)
    have less := weight_step? step
    obtain ⟨events, s', course, ended⟩ := exists_isOver next
    exact ⟨e :: events, s', run?_cons_eq_some_iff.2 ⟨next, step, course⟩, ended⟩
termination_by s.weight

/-- In every course of uniquely named jobs no more jobs are unsettled than the limit says. In the
end exactly their names are known, each with the job's own outcome or, if the coordinator has given
up, with a timeout. A coordinator that has not given up knows the map of all outcomes, in which
neither the limit nor the order of events has a part. A job whose reply was there before the
coordinator gave up keeps its outcome. -/
theorem batch_of_course {workerCount queueCapacity : Nat} {events : List Event}
    (unique : (jobs.map Job.name).Nodup)
    (course : (start workerCount queueCapacity jobs).run? events = some s) :
    (unsettled jobs s).length ≤ workers workerCount + queueCapacity ∧
    (s.isOver = true →
      (∀ name, name ∈ s.batch.results ↔ ∃ job ∈ jobs, job.name = name) ∧
      (∀ job ∈ jobs, s.batch.results[job.name]? = some job.ending.outcome ∨
        s.batch.timedOut = true ∧ s.batch.results[job.name]? = some (.error .timeout)) ∧
      (s.batch.timedOut = false →
        s.batch.results.toList = (Std.TreeMap.ofList (jobs.map Job.reply)).toList) ∧
      ∀ before after mid (job : Job α), events = before ++ after →
        (start workerCount queueCapacity jobs).run? before = some mid →
        mid.timedOut = false → job.reply ∈ mid.replies →
        s.batch.results[job.name]? = some job.ending.outcome) := by
  have initially := balanced_start workerCount queueCapacity jobs
  obtain ⟨t, last⟩ := initially.of_run? unique course
  refine ⟨last.length_unsettled_le, fun ended => ?_⟩
  refine ⟨fun name => last.mem_batch_iff unique ended,
    fun job mem => last.getElem?_batch_of_isOver unique ended mem,
    fun going => last.toList_batch unique ended going, ?_⟩
  rintro before after mid job rfl first going sent
  obtain ⟨same, here, rest⟩ := exists_run?_of_append course
  obtain rfl : mid = same := Option.some.inj (first.symm.trans here)
  obtain ⟨t', between⟩ := initially.of_run? unique first
  have answered : Answered job mid := .inl ⟨going, sent⟩
  exact last.getElem?_batch_of_answered unique ended (answered.of_run? between unique rest)

/-- One job of each kind. -/
def threeJobs : List (Job Nat) :=
  [⟨"a", .value 1⟩, ⟨"b", .panic none⟩, ⟨"c", .failure .poolFull⟩]

/-- The first job replies. -/
def earlyEvents : List Event := [.coordinate, .reply 0]

/-- The second one replies when the coordinator has given up, and the third one is dropped. -/
def lateEvents : List Event :=
  [.coordinate, .coordinate, .expire, .coordinate, .reply 0, .coordinate]

theorem batch_of_course_threeJobs : ∃ s,
    (start 1 0 threeJobs).run? (earlyEvents ++ lateEvents) = some s ∧
    (unsettled threeJobs s).length ≤ 1 ∧
    ("c" ∈ s.batch.results ↔ ∃ job ∈ threeJobs, job.name = "c") ∧
    s.batch.results["a"]? = some (.ok 1) := by
  have unique : (threeJobs.map Job.name).Nodup := by decide
  have ends : ((start 1 0 threeJobs).run? (earlyEvents ++ lateEvents)).map isOver = some true := by
    decide +kernel
  have early : ((start 1 0 threeJobs).run? earlyEvents).map
      (fun mid => (mid.timedOut, mid.replies)) = some (false, [("a", .ok 1)]) := rfl
  obtain ⟨s, course, ended⟩ := Option.map_eq_some_iff.1 ends
  obtain ⟨mid, first, there⟩ := Option.map_eq_some_iff.1 early
  obtain ⟨going, replies⟩ := Prod.mk.inj there
  obtain ⟨room, all⟩ := batch_of_course unique course
  obtain ⟨names, own, whole, kept⟩ := all ended
  have sent : Job.reply ⟨"a", .value 1⟩ ∈ mid.replies := by
    rw [replies]
    exact List.mem_singleton_self _
  exact ⟨s, course, room, names "c", kept _ _ mid ⟨"a", .value 1⟩ rfl first going sent⟩

end Schedule

end Clarify
