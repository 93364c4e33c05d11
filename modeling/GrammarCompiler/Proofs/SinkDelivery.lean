import GrammarCompiler.Sink

/-!
# A sink takes all of a text or its first bytes

Whatever a sink takes with one write, bytes are written in order, so what it took
at any time is the beginning of the text.  How much it takes in the end does not
depend on how many bytes it takes per write, unless it takes none: as much as it
has room for.  It is flushed when all bytes were taken and in no other case.
-/

namespace GrammarCompiler
namespace Sink

/-- The bytes that a sink takes out of those it is given: as many as it has room
for, or none if its writes take none. -/
def bytesTaken (sink : Sink) (bytes : List UInt8) : List UInt8 :=
  if sink.chunk? = some 0 then [] else firstBytes sink.room? bytes

/-- A sink after it took some more bytes. -/
def take (sink : Sink) (bytes : List UInt8) : Sink :=
  { sink with taken := sink.taken ++ bytes }

/-- The complaint of a sink that stops taking bytes. -/
def stopMessage (sink : Sink) : String :=
  if sink.isFull && sink.failsWhenFull then fullMessage else incompleteMessage

/-- A sink that takes nothing more: it is full, or its writes take nothing. -/
def IsStuck (sink : Sink) : Prop :=
  sink.isFull = true ∨ sink.chunk? = some 0

@[simp] theorem chunk?_take (sink : Sink) (bytes : List UInt8) :
    (sink.take bytes).chunk? = sink.chunk? := rfl

@[simp] theorem flushError?_take (sink : Sink) (bytes : List UInt8) :
    (sink.take bytes).flushError? = sink.flushError? := rfl

@[simp] theorem take_nil (sink : Sink) : sink.take [] = sink := by
  rw [take, List.append_nil]

@[simp] theorem take_take (sink : Sink) (first second : List UInt8) :
    (sink.take first).take second = sink.take (first ++ second) := by
  simp only [take, List.append_assoc]

/-- Bytes that are taken leave less room. -/
theorem room?_take (sink : Sink) (bytes : List UInt8) :
    (sink.take bytes).room? = sink.room?.map (· - bytes.length) := by
  simp only [room?, take, List.length_append, Option.map_map]
  congr 1
  funext limit
  exact Nat.sub_add_eq limit sink.taken.length bytes.length

theorem isFull_eq_true_iff
    {sink : Sink} :
    sink.isFull = true ↔ sink.room? = some 0 :=
  beq_iff_eq

/-! ## First bytes -/

theorem isPrefix_firstBytes
    (limit? : Option Nat)
    (bytes : List UInt8) :
    firstBytes limit? bytes <+: bytes := by
  cases limit? with
  | none => exact List.prefix_refl bytes
  | some limit => exact List.take_prefix limit bytes

theorem firstBytes_ne_nil
    {limit? : Option Nat}
    (allowsSome : limit? ≠ some 0)
    {bytes : List UInt8}
    (nonempty : bytes ≠ []) :
    firstBytes limit? bytes ≠ [] := by
  cases limit? with
  | none => exact nonempty
  | some limit =>
      have positive : limit ≠ 0 := fun none => allowsSome (congrArg some none)
      simpa [firstBytes] using ⟨positive, nonempty⟩

theorem length_firstBytes_le
    {limit? : Option Nat}
    {limit : Nat}
    (isLimit : limit ∈ limit?)
    (bytes : List UInt8) :
    (firstBytes limit? bytes).length ≤ limit := by
  rw [Option.mem_def.mp isLimit]
  exact List.length_take_le limit bytes

theorem isPrefix_bytesTaken (sink : Sink) (bytes : List UInt8) :
    sink.bytesTaken bytes <+: bytes := by
  unfold bytesTaken
  split
  · exact List.nil_prefix
  · exact isPrefix_firstBytes _ bytes

@[simp] theorem bytesTaken_nil (sink : Sink) : sink.bytesTaken [] = [] :=
  List.prefix_nil.mp (sink.isPrefix_bytesTaken [])

variable {sink : Sink}

/-! ## One write -/

theorem bytesTaken_of_isStuck
    (stuck : sink.IsStuck)
    (bytes : List UInt8) :
    sink.bytesTaken bytes = [] := by
  unfold bytesTaken
  split
  · rfl
  · next takesSome =>
      rw [isFull_eq_true_iff.mp (stuck.resolve_right takesSome)]
      rfl

theorem write_of_isStuck
    (stuck : sink.IsStuck)
    (offered : List UInt8) :
    sink.write offered =
      (if sink.isFull && sink.failsWhenFull then .error fullMessage else .ok 0, sink) := by
  unfold write
  cases full : sink.isFull with
  | true => simp
  | false =>
      have takesNone : sink.chunk? = some 0 := stuck.resolve_left (by simp [full])
      have nothing : firstBytes sink.chunk? offered = [] := by rw [takesNone]; rfl
      simp [nothing, List.prefix_nil.mp (isPrefix_firstBytes _ [])]

/-- A write to a sink that is not stuck takes some of the first bytes, and no more
than there is room for. -/
theorem exists_write_eq_ok
    (notStuck : ¬sink.IsStuck)
    {offered : List UInt8}
    (nonempty : offered ≠ []) :
    ∃ count, 0 < count ∧ count ≤ offered.length ∧ (∀ room ∈ sink.room?, count ≤ room) ∧
      sink.write offered = (.ok count, sink.take (offered.take count)) := by
  obtain ⟨notFull, takesSome⟩ := not_or.mp notStuck
  have hasRoom := notFull ∘ isFull_eq_true_iff.mpr
  let taken := firstBytes sink.room? (firstBytes sink.chunk? offered)
  have isPrefix : taken <+: offered := (isPrefix_firstBytes _ _).trans (isPrefix_firstBytes _ _)
  have isTaken : sink.write offered = (.ok taken.length, sink.take taken) := if_neg notFull
  refine ⟨taken.length, ?_, isPrefix.length_le, fun room isRoom => ?_, ?_⟩
  · exact List.length_pos_iff.mpr (firstBytes_ne_nil hasRoom (firstBytes_ne_nil takesSome nonempty))
  · exact length_firstBytes_le isRoom _
  · rw [isTaken, ← List.prefix_iff_eq_take.mp isPrefix]

/-- What a sink takes in all is what one write takes and what is taken after
it. -/
theorem bytesTaken_eq_append
    (takesSome : sink.chunk? ≠ some 0)
    {count : Nat}
    {bytes : List UInt8}
    (offered : count ≤ bytes.length)
    (fits : ∀ room ∈ sink.room?, count ≤ room) :
    sink.bytesTaken bytes =
      bytes.take count ++ (sink.take (bytes.take count)).bytesTaken (bytes.drop count) := by
  simp only [bytesTaken, chunk?_take, if_neg takesSome, room?_take, List.length_take_of_le offered]
  cases isRoom : sink.room? with
  | none => exact (List.take_append_drop count bytes).symm
  | some room =>
      have split : room = count + (room - count) := by
        have := fits room isRoom
        omega
      simp only [Option.map_some, firstBytes]
      rw [← List.take_add, ← split]

/-! ## All writes -/

/-- One step of writing all bytes: a sink that is stuck ends it, any other sink
takes some bytes and is offered the others. -/
theorem writeAll_cases
    (sink : Sink)
    {bytes : List UInt8}
    (nonempty : bytes ≠ []) :
    (sink.IsStuck ∧ sink.writeAll bytes = (.error sink.stopMessage, sink)) ∨
    (¬sink.IsStuck ∧ ∃ count, 0 < count ∧ count ≤ bytes.length ∧
      (∀ room ∈ sink.room?, count ≤ room) ∧
      sink.writeAll bytes = (sink.take (bytes.take count)).writeAll (bytes.drop count)) := by
  obtain ⟨byte, others, rfl⟩ := List.exists_cons_of_ne_nil nonempty
  by_cases stuck : sink.IsStuck
  · refine .inl ⟨stuck, ?_⟩
    rw [writeAll, write_of_isStuck stuck, stopMessage]
    cases sink.isFull && sink.failsWhenFull <;> rfl
  · obtain ⟨count, positive, most, fits, isTaken⟩ := exists_write_eq_ok stuck nonempty
    refine .inr ⟨stuck, count, positive, most, fits, ?_⟩
    obtain ⟨further, rfl⟩ := Nat.exists_eq_add_one_of_ne_zero (Nat.ne_of_gt positive)
    rw [writeAll, isTaken]
    rfl

theorem take_append_eq_iff
    {count : Nat}
    {bytes later : List UInt8} :
    bytes.take count ++ later = bytes ↔ later = bytes.drop count := by
  constructor
  · intro same
    have both : bytes.take count ++ later = bytes.take count ++ bytes.drop count := by
      rw [same, List.take_append_drop]
    exact List.append_cancel_left both
  · rintro rfl
    exact List.take_append_drop count bytes

/-- Writing until all bytes are taken gives the sink what it takes in all. -/
theorem writeAll_eq (sink : Sink) (bytes : List UInt8) :
    sink.writeAll bytes =
      (if sink.bytesTaken bytes = bytes then .ok ()
        else .error (sink.take (sink.bytesTaken bytes)).stopMessage,
        sink.take (sink.bytesTaken bytes)) := by
  induction length : bytes.length using Nat.strongRecOn generalizing sink bytes with
  | ind length inductionHypothesis =>
      subst length
      by_cases nonempty : bytes = []
      · subst nonempty
        simp [writeAll]
      · rcases sink.writeAll_cases nonempty with
          ⟨stuck, ends⟩ | ⟨notStuck, count, positive, most, fits, goesOn⟩
        · simp [ends, bytesTaken_of_isStuck stuck, Ne.symm nonempty]
        · have takesSome : sink.chunk? ≠ some 0 := fun none => notStuck (.inr none)
          have fewer : (bytes.drop count).length < bytes.length := by
            rw [List.length_drop]
            omega
          rw [goesOn, inductionHypothesis _ fewer _ _ rfl, bytesTaken_eq_append takesSome most fits]
          simp only [take_append_eq_iff, take_take]

end Sink

/-! ## Compilation into a sink -/

/-- What became of bytes that were given to a sink: it took all of them or the first
ones, and was flushed once if it took all.  Nothing else of it changed. -/
structure IsDelivered
    (settings : Settings)
    (sink : Sink)
    (bytes taken : List UInt8)
    (result : Except DeliveryFailure Unit × Sink) : Prop where
  isPrefix : taken <+: bytes
  /-- The sink took as much as it has room for. -/
  amount : taken = sink.bytesTaken bytes
  /-- The sink holds what it held before and the bytes it took. -/
  after : result.2 =
    { sink with
      taken := sink.taken ++ taken
      flushes := sink.flushes + if taken = bytes then 1 else 0 }
  succeeds_iff : result.1 = .ok () ↔ taken = bytes ∧ sink.flushError? = none
  /-- A failure is one of output and names the grammar file.  The reason is that of the
  flush or that of the write that ended it all. -/
  fails {failure : DeliveryFailure} :
    result.1 = .error failure → ∃ reason, failure = .output reason settings.file ∧
      if taken = bytes then sink.flushError? = some reason
      else reason = (sink.take taken).stopMessage

/-- A sink takes the bytes it is given until it is full, and is flushed if it took
all of them. -/
theorem Sink.deliver_eq (sink : Sink) (bytes : List UInt8) :
    sink.deliver bytes =
      if sink.bytesTaken bytes = bytes then (sink.take bytes).flush
      else (.error (sink.take (sink.bytesTaken bytes)).stopMessage,
        sink.take (sink.bytesTaken bytes)) := by
  rw [deliver, writeAll_eq]
  by_cases all : sink.bytesTaken bytes = bytes <;> simp [all]

/-- Bytes are delivered to a sink whose complaints name the grammar file. -/
theorem Sink.isDelivered_deliver
    (settings : Settings)
    (sink : Sink)
    (bytes : List UInt8) :
    IsDelivered settings sink bytes (sink.bytesTaken bytes)
      ((sink.deliver bytes).1.mapError (.output · settings.file), (sink.deliver bytes).2) := by
  have isPrefix := sink.isPrefix_bytesTaken bytes
  have ofError (reason : String) : (Except.error reason : Except String Unit).mapError
      (DeliveryFailure.output · settings.file) = .error (.output reason settings.file) := rfl
  have ofOk : (Except.ok () : Except String Unit).mapError
      (DeliveryFailure.output · settings.file) = .ok () := rfl
  rw [deliver_eq]
  by_cases all : sink.bytesTaken bytes = bytes
  · rw [if_pos all]
    refine ⟨isPrefix, rfl, ?_, ?_, fun failed => ?_⟩
    · simp [flush, take, all]
    · cases flushed : sink.flushError? <;> simp [flush, flushed, all, ofOk, ofError]
    · cases flushed : sink.flushError? with
      | none => simp [flush, flushed, ofOk] at failed
      | some reason =>
          simp only [flush, flushError?_take, flushed, Option.elim_some, ofError,
            Except.error.injEq] at failed
          exact ⟨reason, failed.symm, by rw [if_pos all]⟩
  · rw [if_neg all]
    refine ⟨isPrefix, rfl, ?_, ?_, fun failed => ?_⟩
    · simp [take, all]
    · simp [all, ofError]
    · exact ⟨_, (Except.error.inj failed).symm, by rw [if_neg all]⟩

/-- A compilation that fails leaves its sink as it was.  One that succeeds gives its
sink the text, of which the sink takes all or the first bytes, and fails itself
unless all are taken and flushed. -/
theorem compileInto_delivers_all_or_first_bytes
    (settings : Settings)
    (tree : Node)
    (sink : Sink) :
    match compile settings tree with
    | .error failure =>
        compileInto settings tree sink = (.error (.compilation failure), sink)
    | .ok text =>
        ∃ taken, IsDelivered settings sink text.toUTF8.toList taken
          (compileInto settings tree sink) := by
  cases compiled : compile settings tree with
  | error failure => simp only [compileInto, compiled]
  | ok text =>
      simp only [compileInto, compiled]
      exact ⟨_, sink.isDelivered_deliver settings _⟩

end GrammarCompiler
