import MicroC.Proofs.Frame.Slots

/-!
Runs of requests to one frame, the refused ones among them. A slot is handed out for
good: whatever is asked for later, it stays apart from the other slots, from the
caller's `s0` above and from the preserved registers below. And however long the run
is, a request is refused for what it asks and for nothing else, and every number in
the code of the frame is in range.
-/

namespace MicroC

open RiscV

/-- A slot of a frame, by its offset from `s0`. -/
structure Slot where
  offset : Int32
  size : UInt32
  deriving DecidableEq

namespace Slot

/-- The bytes of a slot, by their distance from `s0`. -/
def bytes (s : Slot) : Set Int := Set.Ico s.offset.toInt (s.offset.toInt + s.size.toNat)

/-- A slot of a word or more lies at a multiple of a word, and a smaller one at a
multiple of the least power of two that holds it. -/
def Aligned (word : Nat) (s : Slot) : Prop :=
  if word ≤ s.size.toNat then (word : Int) ∣ s.offset.toInt
  else ∃ p : Nat, IsLeast {p | s.size.toNat ≤ p ∧ ∃ k, p = 2 ^ k} p ∧ (p : Int) ∣ s.offset.toInt

end Slot

namespace Frame

inductive Request where
  | slot (size : UInt32)
  | save (reg : Reg)
  deriving DecidableEq

/-- Adds a slot to a frame in place. The frame has grown before the offset of the slot
is known, so that a request that stopped there would leave its mark. -/
def extend (f : Frame) (size : UInt32) : Except Breach Int32 × Frame :=
  if size = 0 then (.error .emptySlot, f)
  else if maxLocals < f.locals.toNat + size.toNat then (.error (.frameOverflow size), f)
  else
    match roundUp (f.locals + size) (slotAlignment f.target.registerBytes size) with
    | .error breach => (.error breach, f)
    | .ok locals =>
        (do Checked.neg (← Checked.add f.target.registerBytes locals).toInt32, { f with locals })

namespace Request

/-- What a request gives, and the frame that it leaves. -/
def perform (f : Frame) : Request → Except Breach (Option Slot) × Frame
  | slot size => ((f.extend size).1.map fun offset => some ⟨offset, size⟩, (f.extend size).2)
  | save reg =>
      match f.preserve reg with
      | .ok f' => (.ok none, f')
      | .error breach => (.error breach, f)

def after (f : Frame) (request : Request) : Frame := (request.perform f).2

/-- The slot that a request is granted. -/
def slot? (f : Frame) (request : Request) : Option Slot := (request.perform f).1.toOption.join

end Request

open Request

def afterAll (f : Frame) (requests : List Request) : Frame := requests.foldl after f

/-- The slots that a run of requests is granted, in order. -/
def handedOut : Frame → List Request → List Slot
  | _, [] => []
  | f, request :: requests => (request.slot? f).toList ++ handedOut (request.after f) requests

variable {f f' : Frame} {size : UInt32}

theorem handedOut_append (f : Frame) (requests further : List Request) :
    f.handedOut (requests ++ further) =
      f.handedOut requests ++ (f.afterAll requests).handedOut further := by
  induction requests generalizing f with
  | nil => rfl
  | cons request requests ih =>
      rw [List.cons_append, handedOut, handedOut, ih, List.append_assoc]
      rfl

/-! ### One request -/

/-- In place or not, a request has the same outcome: all that can stop it is found out
before the frame grows. -/
theorem extend_eq (f : Frame) (size : UInt32) :
    f.extend size =
      match f.reserve size with
      | .ok (offset, f') => (.ok offset, f')
      | .error breach => (.error breach, f) := by
  by_cases hsize : size = 0
  · simp [extend, reserve, hsize]
  · by_cases hfits : f.locals.toNat + size.toNat ≤ maxLocals
    · obtain ⟨locals, hround, hreserve⟩ := reserve_of_fits hsize hfits
      have hoffset := hreserve
      rw [Frame.reserve, if_neg hsize, if_pos hfits] at hoffset
      simp only [hround, Checked.ok_bind] at hoffset
      obtain ⟨depth, hdepth, hoffset⟩ := Checked.bind_eq_ok_iff.mp hoffset
      obtain ⟨offset, hneg, hoffset⟩ := Checked.bind_eq_ok_iff.mp hoffset
      cases hoffset
      rw [extend, if_neg hsize, if_neg (Nat.not_lt.mpr hfits), hround, hreserve]
      simp only [hdepth, Checked.ok_bind, hneg]
    · rw [extend, reserve, if_neg hsize, if_neg hsize, if_neg hfits,
        if_pos (Nat.lt_of_not_le hfits)]

/-- What a request can do. -/
inductive Performs (f : Frame) : Request → Except Breach (Option Slot) → Frame → Prop
  | slot {size : UInt32} {offset : Int32} {f' : Frame} (h : f.reserve size = .ok (offset, f')) :
      Performs f (.slot size) (.ok (some ⟨offset, size⟩)) f'
  | slotRefused {size : UInt32} {breach : Breach} (h : f.reserve size = .error breach) :
      Performs f (.slot size) (.error breach) f
  | save {reg : Reg} {f' : Frame} (h : f.preserve reg = .ok f') :
      Performs f (.save reg) (.ok none) f'
  | saveRefused {reg : Reg} {breach : Breach} (h : f.preserve reg = .error breach) :
      Performs f (.save reg) (.error breach) f

theorem performs (f : Frame) (request : Request) :
    f.Performs request (request.perform f).1 (request.after f) := by
  rw [Request.after]
  cases request with
  | slot size =>
      rw [perform, extend_eq]
      cases h : f.reserve size with
      | ok granted => exact .slot h
      | error breach => exact .slotRefused h
  | save reg =>
      rw [perform]
      cases h : f.preserve reg with
      | ok f' => exact .save h
      | error breach => exact .saveRefused h

theorem preserve_eq_error_iff {reg : Reg} {breach : Breach} :
    f.preserve reg = .error breach ↔ reg ∉ Reg.preserved ∧ breach = .notPreservable reg := by
  rw [Frame.preserve]
  split
  · simp [*]
  · simp [*, eq_comm]

/-- A register that is preserved moves no slot. -/
theorem locals_of_preserve {reg : Reg} (h : f.preserve reg = .ok f') :
    f'.locals = f.locals ∧ f'.target = f.target := by
  rw [Frame.preserve] at h
  split at h
  · cases h
    split <;> exact ⟨rfl, rfl⟩
  · cases h

theorem Reached.after (h : f.Reached) (request : Request) : (request.after f).Reached := by
  have hperforms := f.performs request
  generalize (request.perform f).1 = reply, request.after f = f' at hperforms
  cases hperforms with
  | slot hslot => exact h.reserve hslot
  | save hsave => exact h.preserve hsave
  | slotRefused | saveRefused => exact h

theorem Reached.afterAll (h : f.Reached) (requests : List Request) :
    (f.afterAll requests).Reached := by
  induction requests generalizing f with
  | nil => exact h
  | cons request requests ih => exact ih (h.after request)

/-- The refused requests of a run lead nowhere, so that the granted ones alone lead to
its frame. -/
theorem reached_afterAll (target : Target) (requests : List Request) :
    ((Frame.empty target).afterAll requests).Reached := (Reached.empty target).afterAll requests

/-! ### Slots -/

theorem slotAlignment_dvd_word (f : Frame) (size : UInt32) :
    (slotAlignment f.target.registerBytes size).toNat ∣ f.word := by
  by_cases hsize : f.target.registerBytes ≤ size
  · rw [slotAlignment, if_pos hsize, word]
  · have hword : f.target.registerBytes ≤ 8 := by cases f.target <;> decide
    have hpower : ∃ k, f.word = 2 ^ k := by
      rcases f.word_cases with h | h
      · exact ⟨2, h⟩
      · exact ⟨3, h⟩
    have hlt := UInt32.not_le.mp hsize
    obtain ⟨⟨-, i, hi⟩, hleast⟩ := isLeast_slotAlignment hword hlt
    have hle : (slotAlignment f.target.registerBytes size).toNat ≤ f.word :=
      hleast ⟨Nat.le_of_lt (UInt32.lt_iff_toNat_lt.mp hlt), hpower⟩
    obtain ⟨j, hj⟩ := hpower
    rw [hi, hj] at hle ⊢
    exact Nat.pow_dvd_pow 2 ((Nat.pow_le_pow_iff_right (by decide)).mp hle)

theorem aligned_of_reserve {offset : Int32} (h : f.reserve size = .ok (offset, f')) :
    Slot.Aligned f.word ⟨offset, size⟩ := by
  obtain ⟨locals, rfl, hround, -, hoffset⟩ := offset_of_reserve h
  have hdvd : ((slotAlignment f.target.registerBytes size).toNat : Int) ∣ offset.toInt := by
    rw [hoffset, Int.dvd_neg, Int.natCast_dvd_natCast]
    exact Nat.dvd_add (f.slotAlignment_dvd_word size) (isLeast_roundUp hround).1.1
  rw [Slot.Aligned]
  split
  · rename_i hsize
    have hword : f.target.registerBytes ≤ size := UInt32.le_iff_toNat_le.mpr hsize
    rwa [slotAlignment, if_pos hword] at hdvd
  · rename_i hsize
    have hword : f.target.registerBytes ≤ 8 := by cases f.target <;> decide
    have hlt : size < f.target.registerBytes :=
      UInt32.lt_iff_toNat_lt.mpr (Nat.lt_of_not_le hsize)
    exact ⟨_, isLeast_slotAlignment hword hlt, hdvd⟩

/-- Slots that a frame has handed out: each lies below the one before it, and all of
them between the caller's `s0` and the end of the slots. -/
structure Holding (f : Frame) (slots : List Slot) : Prop where
  stacked : slots.Pairwise fun (s t : Slot) => t.offset.toInt + t.size.toNat ≤ s.offset.toInt
  top : ∀ s ∈ slots, s.offset.toInt + s.size.toNat ≤ -f.word
  bottom : ∀ s ∈ slots, -(f.word + f.locals.toNat : Int) ≤ s.offset.toInt
  aligned : ∀ s ∈ slots, s.Aligned f.word

variable {slots : List Slot}

theorem Holding.reserve {offset : Int32} (h : f.Holding slots)
    (hreserve : f.reserve size = .ok (offset, f')) : f'.Holding (slots ++ [⟨offset, size⟩]) := by
  have haligned := aligned_of_reserve hreserve
  obtain ⟨locals, rfl, hround, hfits, hoffset⟩ := offset_of_reserve hreserve
  have hend := toNat_locals_add hfits
  have hgrown : (f.locals + size).toNat ≤ locals.toNat := (isLeast_roundUp hround).1.2
  have hword : Frame.word { f with locals } = f.word := rfl
  refine ⟨?_, ?_, ?_, ?_⟩
  · rw [List.pairwise_append]
    refine ⟨h.stacked, List.pairwise_singleton _ _, fun s hs t ht => ?_⟩
    obtain rfl := List.mem_singleton.mp ht
    have hbottom := h.bottom s hs
    show offset.toInt + size.toNat ≤ s.offset.toInt
    omega
  · rw [List.forall_mem_append, List.forall_mem_singleton, hword]
    refine ⟨h.top, ?_⟩
    show offset.toInt + size.toNat ≤ -f.word
    omega
  · rw [List.forall_mem_append, List.forall_mem_singleton, hword]
    refine ⟨fun s hs => ?_, ?_⟩
    · have hbottom := h.bottom s hs
      show -(f.word + locals.toNat : Int) ≤ s.offset.toInt
      omega
    · show -(f.word + locals.toNat : Int) ≤ offset.toInt
      omega
  · rw [List.forall_mem_append, List.forall_mem_singleton, hword]
    exact ⟨h.aligned, haligned⟩

theorem Holding.preserve {reg : Reg} (h : f.Holding slots) (hpreserve : f.preserve reg = .ok f') :
    f'.Holding slots := by
  obtain ⟨hlocals, htarget⟩ := locals_of_preserve hpreserve
  have hword : f'.word = f.word := by rw [word, word, htarget]
  refine ⟨h.stacked, ?_, ?_, ?_⟩
  · rw [hword]
    exact h.top
  · rw [hword, hlocals]
    exact h.bottom
  · rw [hword]
    exact h.aligned

theorem Holding.after (h : f.Holding slots) (request : Request) :
    (request.after f).Holding (slots ++ (request.slot? f).toList) := by
  rw [Request.slot?]
  have hperforms := f.performs request
  generalize (request.perform f).1 = reply, request.after f = f' at hperforms
  cases hperforms with
  | slot hslot => exact h.reserve hslot
  | save hsave => simpa [Except.toOption] using h.preserve hsave
  | slotRefused | saveRefused => simpa [Except.toOption] using h

theorem Holding.afterAll (h : f.Holding slots) (requests : List Request) :
    (f.afterAll requests).Holding (slots ++ f.handedOut requests) := by
  induction requests generalizing f slots with
  | nil => rwa [handedOut, List.append_nil]
  | cons request requests ih =>
      rw [handedOut, ← List.append_assoc]
      exact ih (h.after request)

theorem holding_empty (target : Target) : (Frame.empty target).Holding [] :=
  ⟨.nil, List.forall_mem_nil _, List.forall_mem_nil _, List.forall_mem_nil _⟩

theorem Holding.of_append {slots' : List Slot} (h : f.Holding (slots ++ slots')) :
    f.Holding slots where
  stacked := (List.pairwise_append.mp h.stacked).1
  top := fun s hs => h.top s (List.mem_append_left _ hs)
  bottom := fun s hs => h.bottom s (List.mem_append_left _ hs)
  aligned := fun s hs => h.aligned s (List.mem_append_left _ hs)

/-- Where the slots of a frame are that has the size `total`: apart from each other,
below the caller's `s0` and above the preserved registers. -/
structure LaidOut (f : Frame) (total : UInt32) (slots : List Slot) : Prop where
  disjoint : slots.Pairwise fun s t => Disjoint s.bytes t.bytes
  below : ∀ s ∈ slots, ∀ b ∈ s.bytes, b < -f.word
  above : ∀ s ∈ slots, ∀ b ∈ s.bytes, -total.toNat + f.word * f.saved.length ≤ b
  aligned : ∀ s ∈ slots, s.Aligned f.word

theorem Holding.laidOut (h : f.Holding slots) (hf : f.Sound) :
    f.LaidOut (.ofNat f.size) slots where
  disjoint := by
    refine h.stacked.imp fun {s t} hst => Set.disjoint_left.mpr fun b hs ht => ?_
    exact absurd (Int.lt_of_lt_of_le ht.2 hst) (Int.not_lt.mpr hs.1)
  below := fun s hs b hb => Int.lt_of_lt_of_le hb.2 (h.top s hs)
  above := by
    intro s hs b hb
    have hsize := f.le_size
    have hbottom := h.bottom s hs
    have hfirst : s.offset.toInt ≤ b := hb.1
    rw [hf.toNat_total]
    omega
  aligned := h.aligned

theorem target_after (f : Frame) (request : Request) : (request.after f).target = f.target := by
  have hperforms := f.performs request
  generalize (request.perform f).1 = reply, request.after f = f' at hperforms
  cases hperforms with
  | slot hslot =>
      obtain ⟨locals, rfl, -, -⟩ := reserve_eq_ok hslot
      rfl
  | save hsave => exact (locals_of_preserve hsave).2
  | slotRefused | saveRefused => rfl

theorem target_afterAll (f : Frame) (requests : List Request) :
    (f.afterAll requests).target = f.target := by
  induction requests generalizing f with
  | nil => rfl
  | cons request requests ih => exact (ih (request.after f)).trans (f.target_after request)

/-- The slots that a run of requests is granted are laid out in its frame, and they
still are in the frame that any further requests lead to. -/
theorem handedOut_laidOut (target : Target) (requests further : List Request) :
    let f := (Frame.empty target).afterAll (requests ++ further)
    f.target = target ∧ ∃ total, f.total = .ok total ∧
      f.LaidOut total ((Frame.empty target).handedOut requests) := by
  intro f
  have hsound : f.Sound := (reached_afterAll target (requests ++ further)).sound
  have hholding := (holding_empty target).afterAll (requests ++ further)
  rw [List.nil_append, handedOut_append] at hholding
  exact ⟨target_afterAll _ _, _, hsound.total, hholding.of_append.laidOut hsound⟩

/-- A slot of three bytes, then one of a word, and none for the two requests that are
refused. -/
example : (Frame.empty .rv64).handedOut [.slot 3, .save .t1, .save .s1, .slot 0, .slot 8] =
    [⟨-12, 3⟩, ⟨-24, 8⟩] := by
  decide

/-! ### Ranges -/

theorem exists_reserve_error_iff :
    (∃ breach, f.reserve size = .error breach) ↔
      size = 0 ∨ maxLocals < f.locals.toNat + size.toNat := by
  simp only [reserve_eq_error_iff]
  constructor
  · rintro ⟨breach, ⟨hsize, -⟩ | ⟨-, hover, -⟩⟩
    · exact .inl hsize
    · exact .inr hover
  · intro h
    by_cases hsize : size = 0
    · exact ⟨_, .inl ⟨hsize, rfl⟩⟩
    · exact ⟨_, .inr ⟨hsize, h.resolve_left hsize, rfl⟩⟩

theorem after_of_refused {request : Request} {breach : Breach}
    (h : (request.perform f).1 = .error breach) : request.after f = f := by
  have hperforms := f.performs request
  rw [h] at hperforms
  generalize request.after f = f' at hperforms
  cases hperforms with
  | slotRefused | saveRefused => rfl

theorem sixteen_le_size (f : Frame) : 16 ≤ f.size := by
  have hword := f.word_cases
  rw [size]
  omega

/-- After any run of requests a slot is refused only if it is empty or too large, a
register only if it is none that can be preserved, and a refused request leaves the
frame as it was. The sizes, the offsets and the code of the frame are always defined,
and in range. -/
theorem arithmetic_in_range (target : Target) (requests : List Request) :
    let f := (Frame.empty target).afterAll requests
    f.target = target ∧
    (∀ size, (∃ breach, f.reserve size = .error breach) ↔
      size = 0 ∨ 2 ^ 31 - 1 - 256 < f.locals.toNat + size.toNat) ∧
    (∀ size breach, f.reserve size = .error breach →
      breach = .emptySlot ∨ breach = .frameOverflow size) ∧
    (∀ size offset f', f.reserve size = .ok (offset, f') →
      offset.toInt = -(f'.word + f'.locals.toNat : Nat)) ∧
    (∀ reg, (∃ breach, f.preserve reg = .error breach) ↔ reg ∉ Reg.preserved) ∧
    (∀ request breach, (perform f request).1 = .error breach → (perform f request).2 = f) ∧
    ∃ total enter leave, f.total = .ok total ∧
      IsLeast {n | 16 ∣ n ∧ f.word + f.locals.toNat + f.word * f.saved.length ≤ n} total.toNat ∧
      16 ≤ total.toNat ∧ total.toNat ≤ 2 ^ 31 - 1 ∧
      f.prologue = .ok enter ∧ f.epilogue = .ok leave ∧ ∀ i ∈ enter ++ leave, i.Short := by
  intro f
  have hsound : f.Sound := (reached_afterAll target requests).sound
  obtain ⟨enter, henter, hshort⟩ := hsound.short_prologue
  obtain ⟨leave, hleave, hshort'⟩ := hsound.short_epilogue
  refine ⟨target_afterAll _ _, fun size => exists_reserve_error_iff, fun size breach =>
    reserve_eq_error, fun size offset f' hreserve => ?_, fun reg => ?_, fun request breach =>
    after_of_refused, _, enter, leave, hsound.total, ?_, ?_, ?_, henter, hleave,
    List.forall_mem_append.mpr ⟨hshort, hshort'⟩⟩
  · obtain ⟨locals, rfl, -, -, hoffset⟩ := offset_of_reserve hreserve
    exact hoffset
  · simp only [preserve_eq_error_iff, exists_and_left, exists_eq, and_true]
  · rw [hsound.toNat_total]
    exact f.isLeast_size
  · rw [hsound.toNat_total]
    exact f.sixteen_le_size
  · rw [hsound.toNat_total]
    exact Nat.le_pred_of_lt hsound.size_lt

/-- A slot whose alignment puts its end above the limit, between requests that are
refused. -/
theorem arithmetic_in_range_full :
    let f : Frame := ⟨.rv64, 2147483392, [.s1]⟩
    (Frame.empty .rv64).afterAll [.slot 0, .slot 2147483390, .save .t1, .save .s1] = f ∧
      (∃ breach, f.reserve 1 = .error breach) ∧ (perform f (.slot 1)).2 = f ∧
      ∃ total, f.total = .ok total ∧ total.toNat ≤ 2 ^ 31 - 1 := by
  intro f
  have hf : (Frame.empty .rv64).afterAll [.slot 0, .slot 2147483390, .save .t1, .save .s1] = f := by
    decide
  obtain ⟨-, hrefused, -, -, -, hkept, total, _, _, htotal, -, -, hle, -⟩ :=
    arithmetic_in_range .rv64 [.slot 0, .slot 2147483390, .save .t1, .save .s1]
  rw [hf] at hrefused hkept htotal
  exact ⟨hf, (hrefused 1).mpr (.inr (by decide)), hkept (.slot 1) (.frameOverflow 1) (by decide),
    total, htotal, hle⟩

end Frame

end MicroC
