import MicroC.Proofs.Emission.Run

/-!
Emission to streams that fill up. What a tree writes piece by piece might as well be
collected first and then written at once: the stream takes as much of it as there is
room for, and emission fails if that is not all. So the bytes that a stream receives
are known from a stream without limit, and so is the result, since no check that comes
after a failed write is made any more.
-/

namespace MicroC

open RiscV
open Journal (Record)

theorem extract_zero_of_size_le {bytes : ByteArray} {n : Nat} (h : bytes.size ≤ n) :
    bytes.extract 0 n = bytes := by
  rw [← Nat.max_eq_left h, ByteArray.extract_zero_max_size]

namespace Sink

variable {k : Sink} {room : Nat} {bytes : ByteArray}

theorem write_of_room_eq_none (hroom : k.room = none) (bytes : ByteArray) :
    k.write bytes = (.ok (), ⟨k.written ++ bytes, none⟩) := by
  simp only [write, hroom]

theorem write_of_le (hroom : k.room = some room) (h : bytes.size ≤ room) :
    k.write bytes = (.ok (), ⟨k.written ++ bytes, some (room - bytes.size)⟩) := by
  simp only [write, hroom, if_pos h]

theorem write_of_lt (hroom : k.room = some room) (h : room < bytes.size) :
    k.write bytes =
      (.error (.stream .full), ⟨k.written ++ bytes.extract 0 room, some 0⟩) := by
  simp only [write, hroom, if_neg (Nat.not_le.mpr h)]

theorem write_empty (k : Sink) : k.write .empty = (.ok (), k) := by
  obtain ⟨written, room⟩ := k
  cases room with
  | none => rw [write_of_room_eq_none rfl, ByteArray.append_empty]
  | some room => rw [write_of_le rfl (Nat.zero_le room), ByteArray.append_empty]; rfl

theorem write_limited (room : Nat) (bytes : ByteArray) :
    (limited room).write bytes =
      if bytes.size ≤ room then (.ok (), ⟨bytes, some (room - bytes.size)⟩)
      else (.error (.stream .full), ⟨bytes.extract 0 room, some 0⟩) := by
  simp only [write, limited, ByteArray.empty_append]

/-- Bytes are written in two parts, the second one only if there was room for the
first. -/
theorem write_append (k : Sink) (first second : ByteArray) :
    k.write (first ++ second) =
      match k.write first with
      | (.ok (), k') => k'.write second
      | (.error error, k') => (.error error, k') := by
  cases hroom : k.room with
  | none =>
      rw [write_of_room_eq_none hroom, write_of_room_eq_none hroom, ← ByteArray.append_assoc]
      rfl
  | some room =>
      have hsize : (first ++ second).size = first.size + second.size := ByteArray.size_append
      by_cases hfirst : first.size ≤ room
      · rw [write_of_le hroom hfirst]
        dsimp only
        by_cases hsecond : second.size ≤ room - first.size
        · rw [write_of_le hroom (by omega), write_of_le rfl hsecond, hsize, ByteArray.append_assoc,
            Nat.sub_add_eq]
        · rw [write_of_lt hroom (by omega), write_of_lt rfl (by omega), ByteArray.extract_append,
            extract_zero_of_size_le hfirst, Nat.zero_sub, ByteArray.append_assoc]
      · rw [write_of_lt hroom (by omega), write_of_lt hroom (by omega), ByteArray.extract_append,
          show room - first.size = 0 by omega, Nat.zero_sub, ByteArray.extract_same,
          ByteArray.append_empty]

end Sink

namespace Emit

variable {α β : Type}

/-- What a step does to a session with the stream `k`, as far as that is known from
what it does with an empty stream without limit: it ends in the same way if there is
room for all that it writes, and fails otherwise. -/
inductive Pours (k : Sink) : (collected outcome : Except (Halt EmitError) α × Session) → Prop
  | whole {result : Except (Halt EmitError) α} {c : Context} {bytes : ByteArray}
      {journal : List Record} {k' : Sink} (h : k.write bytes = (.ok (), k')) :
      Pours k (result, ⟨c, ⟨bytes, none⟩, journal⟩) (result, ⟨c, k', journal⟩)
  | cut {result : Except (Halt EmitError) α} {c : Context} {bytes : ByteArray}
      {journal : List Record} {error : EmitError} {s' : Session}
      (h : k.write bytes = (.error error, s'.sink)) :
      Pours k (result, ⟨c, ⟨bytes, none⟩, journal⟩) (.error (.failure error), s')

/-- What a step writes might as well be collected and written at once. -/
def Collects (x : EmitM α) : Prop :=
  ∀ s : Session, Pours s.sink (run x { s with sink := .unlimited }) (run x s)

namespace Pours

variable {k k' : Sink} {first : ByteArray} {rest whole outcome : Except (Halt EmitError) β × Session}

/-- A stream without limit holds what was collected after what it held before. -/
theorem exists_of_unlimited (h : Pours ⟨first, none⟩ rest whole) :
    ∃ result c bytes journal, rest = (result, ⟨c, ⟨bytes, none⟩, journal⟩) ∧
      whole = (result, ⟨c, ⟨first ++ bytes, none⟩, journal⟩) := by
  cases h with
  | whole h =>
      rw [Sink.write_of_room_eq_none rfl] at h
      cases h
      exact ⟨_, _, _, _, rfl, rfl⟩
  | cut h =>
      rw [Sink.write_of_room_eq_none rfl] at h
      cases h

/-- Two steps, where there is room for what the first one writes. -/
theorem append (hfirst : k.write first = (.ok (), k')) (hwhole : Pours ⟨first, none⟩ rest whole)
    (h : Pours k' rest outcome) : Pours k whole outcome := by
  obtain ⟨result, c, bytes, journal, rfl, rfl⟩ := hwhole.exists_of_unlimited
  have hwrite := k.write_append first bytes
  rw [hfirst] at hwrite
  cases h with
  | whole h => exact .whole (hwrite.trans h)
  | cut h => exact .cut (hwrite.trans h)

/-- Nothing is done after a step that fills the stream. -/
theorem append_cut {error : EmitError} {s' : Session}
    (hfirst : k.write first = (.error error, s'.sink)) (hwhole : Pours ⟨first, none⟩ rest whole) :
    Pours k whole (.error (.failure error), s') := by
  obtain ⟨result, c, bytes, journal, rfl, rfl⟩ := hwhole.exists_of_unlimited
  have hwrite := k.write_append first bytes
  rw [hfirst] at hwrite
  exact .cut hwrite

theorem of_limited {room : Nat} (h : Pours (.limited room) whole outcome) :
    outcome.2.sink.written = whole.2.sink.written.extract 0 room ∧
      outcome.1 = if whole.2.sink.written.size ≤ room then whole.1
        else .error (.failure (.stream .full)) := by
  cases h with
  | whole hwrite =>
      rw [Sink.write_limited] at hwrite
      split at hwrite
      · rename_i hroom
        cases hwrite
        rw [if_pos hroom, extract_zero_of_size_le hroom]
        exact ⟨rfl, rfl⟩
      · cases hwrite
  | cut hwrite =>
      rw [Sink.write_limited] at hwrite
      split at hwrite
      · cases hwrite
      · rename_i hroom
        obtain ⟨herror, hsink⟩ := Prod.mk.inj hwrite
        cases herror
        rw [if_neg hroom, ← hsink]
        exact ⟨rfl, rfl⟩

end Pours

theorem Collects.bind {x : EmitM α} {f : α → EmitM β} (hx : Collects x)
    (hf : ∀ a, Collects (f a)) : Collects (x >>= f) := by
  intro s
  have hx := hx s
  rw [run_bind, run_bind]
  generalize run x { s with sink := .unlimited } = collected at hx ⊢
  generalize run x s = outcome at hx ⊢
  cases hx with
  | @whole result c first journal k' hfirst =>
      cases result with
      | error stop => exact .whole hfirst
      | ok a => exact .append hfirst (hf a ⟨c, ⟨first, none⟩, journal⟩) (hf a ⟨c, k', journal⟩)
  | @cut result c first journal error s' hfirst =>
      cases result with
      | error stop => exact .cut hfirst
      | ok a => exact .append_cut hfirst (hf a ⟨c, ⟨first, none⟩, journal⟩)

/-! ### Steps -/

/-- A step that neither reads nor writes the stream. -/
theorem collects_of_silent {x : EmitM α}
    (h : ∀ (s : Session) (sink : Sink),
      run x { s with sink } = ((run x s).1, { (run x s).2 with sink })) : Collects x := by
  intro s
  have hs := h s s.sink
  rw [h s .unlimited, hs]
  exact .whole s.sink.write_empty

theorem collects_pure (a : α) : Collects (pure a) := collects_of_silent fun _ _ => rfl

theorem collects_context : Collects context := collects_of_silent fun _ _ => rfl

theorem collects_setContext (c : Context) : Collects (setContext c) :=
  collects_of_silent fun _ _ => rfl

theorem collects_note (record : Record) : Collects (note record) :=
  collects_of_silent fun _ _ => rfl

theorem collects_throw (stop : Halt EmitError) : Collects (throw stop : EmitM α) :=
  collects_of_silent fun _ _ => rfl

/-- What would follow a failure does not matter. -/
theorem collects_fail_bind (error : EmitError) (f : α → EmitM β) :
    Collects (fail error >>= f) := collects_of_silent fun _ _ => rfl

theorem collects_contract (x : Except Breach α) : Collects (contract x) := by
  cases x with
  | ok a => exact collects_pure a
  | error breach => exact collects_throw _

theorem collects_permitted (x : Except EmitError α) : Collects (permitted x) := by
  cases x with
  | ok a => exact collects_pure a
  | error error => exact collects_throw _

/-- What goes to another stream is nothing to this one. -/
theorem collects_onto (sink : Sink) (step : EmitM Unit) : Collects (onto sink step) := by
  refine collects_of_silent fun s sink' => ?_
  rw [run_onto, run_onto]
  generalize run step { s with sink } = outcome
  obtain ⟨(error | breach) | _, s'⟩ := outcome <;> rfl

theorem collects_write (bytes : ByteArray) : Collects (write bytes) := by
  intro s
  rw [run_write rfl, run_write_eq]
  show Pours _ (_, ⟨_, ⟨.empty ++ bytes, none⟩, _⟩) _
  rw [ByteArray.empty_append]
  cases hwrite : s.sink.write bytes with
  | mk result k' =>
      cases result with
      | ok _ => exact .whole hwrite
      | error error => exact .cut hwrite

theorem collects_instruction (i : Instr) : Collects (instruction i) := collects_write _

theorem collects_instructions (code : List Instr) : Collects (instructions code) := by
  induction code with
  | nil => exact collects_pure ()
  | cons i code ih => exact (collects_instruction i).bind fun _ => ih

theorem collects_setReturned : Collects setReturned :=
  collects_context.bind fun _ => (collects_contract _).bind collects_setContext

theorem collects_exitScope : Collects exitScope :=
  collects_context.bind fun _ => (collects_contract _).bind fun _ =>
    (collects_setContext _).bind fun _ => collects_note _

theorem collects_openFunction (name : String) : Collects (openFunction name) :=
  collects_context.bind fun _ => (collects_permitted _).bind fun _ =>
    (collects_setContext _).bind fun _ => (collects_note _).bind fun _ => collects_note _

theorem collects_closeFunction : Collects closeFunction := by
  refine collects_context.bind fun c => ?_
  cases c.function with
  | none => exact collects_throw _
  | some state =>
      refine (collects_setContext _).bind fun _ => collects_exitScope.bind fun _ => ?_
      exact (collects_contract _).bind fun _ => (collects_note _).bind fun _ => collects_pure _

/-! ### Statements -/

theorem collects_constant (value : Int64) : Collects (constant value) := by
  refine collects_context.bind fun c => ?_
  dsimp only
  split
  · exact collects_fail_bind _ _
  · split
    · exact collects_fail_bind _ _
    · exact collects_instruction _

theorem collects_named (name : String) : Collects (named name) := by
  refine (collects_context.bind fun c => collects_permitted _).bind fun storage => ?_
  cases storage with
  | stack offset =>
      dsimp only
      split
      · exact collects_instruction _
      · exact collects_instructions _
  | register reg => exact collects_instruction _
  | function label => exact collects_throw _

theorem collects_returnValue (node : Node) : Collects (returnValue node) := by
  cases node with
  | constant value => exact collects_constant value
  | identifier name => exact collects_named name
  | ret | declarator | function | list => exact collects_throw _

theorem collects_leave : Collects leave :=
  (collects_context.bind fun _ => collects_contract _).bind fun _ =>
    (collects_contract _).bind fun code => (collects_instructions code).bind fun _ =>
      collects_setReturned

theorem collects_returnStatement (expression : Option Node) :
    Collects (returnStatement expression) := by
  refine collects_context.bind fun c => ?_
  dsimp only
  split
  · exact collects_fail_bind _ _
  · cases expression with
    | none => exact collects_leave
    | some node => exact (collects_returnValue node).bind fun _ => collects_leave

theorem collects_requireReachable : Collects requireReachable :=
  collects_context.bind fun _ => collects_permitted _

theorem collects_checkEntry (node : Node) : Collects (checkEntry node) := by
  cases node with
  | ret | function | list => exact collects_pure ()
  | identifier | constant | declarator =>
      refine collects_context.bind fun c => ?_
      split
      · exact collects_throw _
      · exact collects_throw _

/-! ### Trees -/

theorem collects_function (type : TypeSpecifier) (name : String) (body : Option Node) :
    Collects (Node.emit (.function type name body)) := by
  rw [emit_function]
  refine (collects_openFunction name).bind fun _ => ?_
  refine (collects_onto _ _).bind fun written => ?_
  refine collects_closeFunction.bind fun frame => ?_
  obtain ⟨error | _, code⟩ := written
  · refine (collects_contract _).bind fun _ => (collects_note _).bind fun _ => ?_
    refine (collects_instruction _).bind fun _ => (collects_instruction _).bind fun _ => ?_
    refine (collects_instruction _).bind fun _ => (collects_contract _).bind fun _ => ?_
    exact (collects_instructions _).bind fun _ => collects_write _
  · exact collects_fail_bind _ _

mutual

/-- The body of a function is collected anyway, so that only lists lead further down. -/
theorem collects_emit (node : Node) : Collects node.emit := by
  cases node with
  | identifier name =>
      rw [Node.emit]
      exact collects_write _
  | constant value =>
      rw [Node.emit]
      exact collects_constant value
  | ret expression =>
      rw [Node.emit]
      exact collects_returnStatement expression
  | declarator name =>
      rw [Node.emit]
      exact collects_instruction _
  | function type name body => exact collects_function type name body
  | list entries =>
      rw [Node.emit]
      exact collects_emitEntries entries

theorem collects_emitEntries (entries : List (Option Node)) :
    Collects (Node.emitEntries entries) := by
  cases entries with
  | nil =>
      rw [Node.emitEntries]
      exact collects_pure ()
  | cons entry rest =>
      cases entry with
      | none =>
          rw [Node.emitEntries]
          exact collects_emitEntries rest
      | some node =>
          rw [Node.emitEntries]
          refine collects_requireReachable.bind fun _ => ?_
          refine (collects_checkEntry node).bind fun _ => ?_
          exact (collects_emit node).bind fun _ => collects_emitEntries rest

end

end Emit

/-- A stream that takes `room` bytes receives the first `room` bytes of what a stream
without limit would receive. Emission ends as it would there if that is all of them, and
because the stream is full otherwise, even if the tree is refused further on. -/
theorem run_emit_limited (c : Context) (journal : List Record) (node : Node) (room : Nat) :
    let whole := Emit.run node.emit ⟨c, .unlimited, journal⟩
    let part := Emit.run node.emit ⟨c, .limited room, journal⟩
    part.2.sink.written = whole.2.sink.written.extract 0 room ∧
      part.1 = if whole.2.sink.written.size ≤ room then whole.1
        else .error (.failure (.stream .full)) := by
  have hpours := Emit.collects_emit node ⟨c, .limited room, journal⟩
  exact hpours.of_limited

/-- The stream is full before the entry that would be refused. -/
example :
    (Emit.run (Node.emit (.list [some (.function .int "f" none), some (.identifier "x")]))
      ⟨.empty .rv32, .limited 3, []⟩).1 = .error (.failure (.stream .full)) := by
  cbv

end MicroC
